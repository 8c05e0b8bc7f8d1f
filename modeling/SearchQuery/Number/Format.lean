import SearchQuery.Number.Shortest

/-!
# SearchQuery.Number.Format

Text of a double. A `FloatFormat` collects what an output decides about it; the digits are always the
shortest ones.
-/

namespace SearchQuery
namespace Number

structure FloatFormat where
  /-- Whether a number whose leading digit has this exponent is written without an exponent. -/
  positional : Int → Bool
  /-- Whether `.0` ends a whole number written without an exponent. -/
  wholePoint : Bool
  tie : Tie
  /-- The text of an infinity, after its sign. -/
  infinity : String
  notANumber : String

/-- The digits with the point after the place of exponent zero; `top` is the first digit's exponent. -/
def positionalText (wholePoint : Bool) (digits : List Char) (top : Int) : List Char :=
  if top < 0 then '0' :: '.' :: (List.replicate (-top - 1).toNat '0' ++ digits)
  else
    let whole := top.toNat + 1
    if digits.length ≤ whole then
      digits ++ List.replicate (whole - digits.length) '0' ++ (if wholePoint then ['.', '0'] else [])
    else digits.take whole ++ '.' :: digits.drop whole

/-- One digit, the others after a point, then the exponent with its sign. -/
def exponentText (digits : List Char) (top : Int) : List Char :=
  let fraction := digits.drop 1
  digits.take 1 ++ (if fraction.isEmpty then [] else '.' :: fraction) ++
    ['e', if top < 0 then '-' else '+'] ++ Nat.toDigits 10 top.natAbs

/-- The text of the double with these bits, its sign bit cleared. -/
def FloatFormat.magnitudeText (f : FloatFormat) (bits : Nat) : List Char :=
  if bits = 0 then positionalText f.wholePoint ['0'] 0
  else
    let d := shortest f.tie bits
    let digits := Nat.toDigits 10 d.digits
    let top := d.exponent + (digits.length - 1 : Nat)
    if f.positional top then positionalText f.wholePoint digits top else exponentText digits top

def FloatFormat.text (f : FloatFormat) (x : Float) : String :=
  let all := x.toBits.toNat
  let bits := all % Nat.pow 2 63
  let infinite := 2047 * Nat.pow 2 52
  if infinite < bits then f.notANumber
  else
    let body := if bits = infinite then f.infinity else String.ofList (f.magnitudeText bits)
    if all < Nat.pow 2 63 then body else "-" ++ body

/-- Numbers in messages and reports: never an exponent, and no point after a whole number. -/
def plain : FloatFormat where
  positional := fun _ => true
  wholePoint := false
  tie := .up
  infinity := "inf"
  notANumber := "NaN"

end Number
end SearchQuery
