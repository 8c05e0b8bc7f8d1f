/-!
# SearchQuery.Number.Digits

Numbers written with the ASCII digits.

* `ofDigits`    — the number that a run of digits denotes.
* `readNat?`    — reads a whole text as a run of digits.
* `readSigned?` — the same after at most one sign.
* `readInt64?`  — a signed number of at most 64 bits.
-/

namespace SearchQuery
namespace Number

def digitValue (c : Char) : Nat :=
  c.toNat - '0'.toNat

def ofDigits (cs : List Char) : Nat :=
  cs.foldl (fun n c => 10 * n + digitValue c) 0

/-- The empty text is no number. -/
def readNat? (cs : List Char) : Option Nat :=
  if cs ≠ [] ∧ cs.all Char.isDigit then some (ofDigits cs) else none

/-- Takes off one leading sign and tells whether it was a minus. -/
def splitSign : List Char → Bool × List Char
  | '-' :: cs => (true, cs)
  | '+' :: cs => (false, cs)
  | cs => (false, cs)

def readSigned? (cs : List Char) : Option Int :=
  let (negative, digits) := splitSign cs
  (readNat? digits).map fun n => if negative then -(n : Int) else n

def fitsInt64 (n : Int) : Bool :=
  -Int.pow 2 63 ≤ n && n < Int.pow 2 63

def readInt64? (cs : List Char) : Option Int :=
  (readSigned? cs).filter fitsInt64

end Number
end SearchQuery
