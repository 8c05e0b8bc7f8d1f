/-!
# SearchQuery.Number.Shortest

The decimal digits of a double: as few as possible so that reading them gives the double back, and
of the shortest ones those nearest to its exact value.

A positive finite double is exactly `m · 2 ^ q`. The reals that round to it form an interval around
it, whose ends belong to it when `m` is even. For one, two, up to seventeen digits the two decimals
of that length next to the exact value are tested against the interval, all in integers.
-/

namespace SearchQuery
namespace Number

/-- Which of two equally near decimals is taken. -/
inductive Tie where
  | even
  | up
  deriving DecidableEq

/-- `digits` written as an integer, times `10 ^ exponent`. -/
structure Decimals where
  digits : Nat
  exponent : Int
  deriving DecidableEq

/-- An interval of rationals with the common denominator `den`, and a point `mid` inside it. -/
structure Interval where
  low : Nat
  mid : Nat
  high : Nat
  den : Nat
  closed : Bool

namespace Interval

/-- The reals that round to the positive double with these bits (its sign bit cleared). Quarters of
the last place are the unit, since below a power of two the neighbour is only half as far. -/
def ofBits (bits : Nat) : Interval :=
  let fraction := bits % Nat.pow 2 52
  let biased := bits / Nat.pow 2 52
  let m := if biased = 0 then fraction else fraction + Nat.pow 2 52
  let q : Int := (if biased = 0 then 1 else biased : Nat) - 1077
  let below := if fraction = 0 ∧ 1 < biased then 1 else 2
  let unit := Nat.pow 2 q.toNat
  { low := (4 * m - below) * unit
    mid := 4 * m * unit
    high := (4 * m + 2) * unit
    den := Nat.pow 2 (-q).toNat
    closed := m % 2 = 0 }

/-- The interval in units of `10 ^ g`. -/
def scaled (i : Interval) (g : Int) : Interval :=
  let up := Nat.pow 10 (-g).toNat
  { i with
    low := i.low * up
    mid := i.mid * up
    high := i.high * up
    den := i.den * Nat.pow 10 g.toNat }

def contains (i : Interval) (n : Nat) : Bool :=
  if i.closed then i.low ≤ n * i.den && n * i.den ≤ i.high
  else i.low < n * i.den && n * i.den < i.high

/-- The exponent of the leading digit of `mid`, for `mid` positive. -/
def magnitude (i : Interval) : Int :=
  if i.den ≤ i.mid then ((Nat.toDigits 10 (i.mid / i.den)).length : Int) - 1
  else
    let places := (Nat.toDigits 10 (i.den / i.mid)).length
    if i.mid * Nat.pow 10 (places - 1) = i.den then 1 - (places : Int) else -(places : Int)

/-- The integer of the interval next to `mid`, if the two around `mid` are not both outside. -/
def nearest? (tie : Tie) (i : Interval) : Option Nat :=
  let n := i.mid / i.den
  match i.contains n, i.contains (n + 1) with
  | false, false => none
  | true, false => some n
  | false, true => some (n + 1)
  | true, true =>
    let left := i.mid - n * i.den
    let right := (n + 1) * i.den - i.mid
    if left < right then some n
    else if right < left then some (n + 1)
    else if tie = .even ∧ n % 2 = 0 then some n
    else some (n + 1)

end Interval

/-- Drops the zeros at the end of `digits`, counting them into the exponent; `fuel` bounds them. -/
def Decimals.trim (fuel : Nat) (d : Decimals) : Decimals :=
  match fuel with
  | 0 => d
  | fuel + 1 => if d.digits % 10 = 0 then trim fuel ⟨d.digits / 10, d.exponent + 1⟩ else d

/-- The shortest decimal of the positive finite double with these bits. Seventeen digits always
suffice, so the zero at the end is never reached. -/
def shortest (tie : Tie) (bits : Nat) : Decimals :=
  let i := Interval.ofBits bits
  let top := i.magnitude
  let found := (List.range 17).findSome? fun (k : Nat) =>
    let g := top - k
    ((i.scaled g).nearest? tie).map fun n => Decimals.trim 17 ⟨n, g⟩
  found.getD ⟨0, 0⟩

end Number
end SearchQuery
