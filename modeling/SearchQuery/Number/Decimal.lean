import SearchQuery.Number.Digits

/-!
# SearchQuery.Number.Decimal

Decimal numbers that remember how many fraction digits they were written with: `1.50` and `1.5` are
equal in value and differ as decimals. A decimal is an integer of at most 96 bits, divided by a power
of ten with an exponent of at most 28, and a sign. A zero has a sign only if an exponent made it out
of a negative number, as in `-0.1e-28`.

* `Decimal.read?`   — reads `12`, `-1.50`, `.5`, `1_000`, `1.25e3`.
* `Decimal.text`    — writes the sign, the whole part and all fraction digits.
* `Decimal.toFloat` — the double that stands for the decimal in JSON.
-/

namespace SearchQuery
namespace Number

structure Decimal where
  negative : Bool
  mantissa : Nat
  scale : Nat
  mantissa_lt : mantissa < Nat.pow 2 96
  scale_le : scale ≤ 28
  deriving DecidableEq

namespace Decimal

/-- `none` when the number does not fit. -/
def make? (negative : Bool) (mantissa scale : Nat) : Option Decimal :=
  if h : mantissa < Nat.pow 2 96 ∧ scale ≤ 28 then
    some { negative, mantissa, scale, mantissa_lt := h.1, scale_le := h.2 }
  else none

/-! ## Reading -/

/-- A digit that no longer fits ends the number: it only decides how the last place is rounded. When
rounding up fills the 96 bits, the last fraction digit is given up. -/
def roundLast? (mantissa scale digit : Nat) : Option (Nat × Nat) :=
  if digit < 5 then some (mantissa, scale)
  else if mantissa + 1 < Nat.pow 2 96 then some (mantissa + 1, scale)
  else if scale = 0 then none
  else some ((mantissa + 5) / 10, scale - 1)

/-- A number below this bound takes one more digit within a 64-bit word. -/
def wordBound : Nat :=
  (Nat.pow 2 64 - 1) / 10 - 255

/-- Whether the last digit was added within a 64-bit word. -/
def isShort (mantissa : Nat) : Bool :=
  mantissa / 10 < wordBound

/-- Adds fraction digits as long as they fit. Underscores are passed over, but in a short number one
that follows the twenty-eighth place stands for the digit zero and ends the number unrounded. -/
def addFraction? : Nat → Nat → List Char → Option (Nat × Nat)
  | mantissa, scale, [] => some (mantissa, scale)
  | mantissa, scale, c :: cs =>
    if c = '_' then
      if scale = 28 ∧ isShort mantissa then some (mantissa, scale)
      else addFraction? mantissa scale cs
    else
      let longer := 10 * mantissa + digitValue c
      if scale < 28 ∧ longer < Nat.pow 2 96 then addFraction? longer (scale + 1) cs
      else roundLast? mantissa scale (digitValue c)

/-- Digits with at most one point. Underscores may stand anywhere after the first digit. A zero
loses its sign. -/
def readPlain? (cs : List Char) : Option Decimal :=
  let (negative, body) := splitSign cs
  let whole := body.takeWhile (· ≠ '.')
  let fraction := (body.dropWhile (· ≠ '.')).drop 1
  let marks := whole ++ fraction
  if marks.head?.any Char.isDigit ∧ marks.all (fun c => c.isDigit || c = '_') then
    let start := ofDigits (whole.filter Char.isDigit)
    if start < Nat.pow 2 96 then
      (addFraction? start 0 fraction).bind fun (mantissa, scale) =>
        make? (negative && mantissa != 0) mantissa scale
    else none
  else none

/-- `n / 10 ^ places`, a half going up. -/
def roundPlaces (n places : Nat) : Nat :=
  (n + Nat.pow 10 places / 2) / Nat.pow 10 places

/-- Divides by `10 ^ x`. Fraction digits beyond the twenty-eighth are rounded away; the sign stays
even if nothing else does. -/
def shiftRight? (d : Decimal) (x : Nat) : Option Decimal :=
  if 28 < x then none
  else if d.scale + x ≤ 28 then make? d.negative d.mantissa (d.scale + x)
  else make? d.negative (roundPlaces d.mantissa (d.scale + x - 28)) 28

/-- Multiplies by `10 ^ x`. -/
def shiftLeft? (d : Decimal) (x : Nat) : Option Decimal :=
  if x ≤ d.scale then make? d.negative d.mantissa (d.scale - x)
  else if 28 < x then none
  else make? d.negative (d.mantissa * Nat.pow 10 (x - d.scale)) 0

/-- An exponent without its minus: digits after an optional plus. -/
def readExponent? : List Char → Option Nat
  | '+' :: cs => readNat? cs
  | cs => readNat? cs

def isExponentMark (c : Char) : Bool :=
  c = 'e' || c = 'E'

def readScientific? (cs : List Char) : Option Decimal :=
  match cs.dropWhile fun c => !isExponentMark c with
  | [] => none
  | _ :: power =>
    (readPlain? (cs.takeWhile fun c => !isExponentMark c)).bind fun d =>
      match power with
      | '-' :: places => (readExponent? places).bind d.shiftRight?
      | places => (readExponent? places).bind d.shiftLeft?

def read? (cs : List Char) : Option Decimal :=
  (readPlain? cs).orElse fun _ => readScientific? cs

/-! ## Views -/

/-- Exactly `scale` digits after the point, and at least one before it. -/
def text (d : Decimal) : String :=
  let digits := Nat.toDigits 10 d.mantissa
  let padded := List.replicate (d.scale + 1 - digits.length) '0' ++ digits
  let whole := padded.take (padded.length - d.scale)
  let fraction := padded.drop (padded.length - d.scale)
  String.ofList
    ((if d.negative then ['-'] else []) ++ whole ++
      (if fraction.isEmpty then [] else '.' :: fraction))

/-- The integer equal to the decimal, if its fraction is zero. -/
def toInt? (d : Decimal) : Option Int :=
  if d.mantissa % Nat.pow 10 d.scale = 0 then
    let n : Int := (d.mantissa / Nat.pow 10 d.scale : Nat)
    some (if d.negative then -n else n)
  else none

/-- Whole part and fraction are converted apart and added; the sum is then rounded to `scale` places
once more, so that most decimals give the double nearest to them. -/
def toFloat (d : Decimal) : Float :=
  let power := Nat.pow 10 d.scale
  let whole := Float.ofNat (d.mantissa / power)
  let fraction := Float.ofNat (d.mantissa % power) / Float.ofNat power
  let size :=
    if d.mantissa % power = 0 then whole
    else ((whole + fraction) * Float.ofNat power).round / Float.ofNat power
  if d.negative then -size else size

end Decimal
end Number
end SearchQuery
