/-!
# SearchQuery.Text.Blank

Blank characters separate the tokens of a query and pad the values written in it. They are the
twenty-five characters of the Unicode property White_Space.
-/

namespace SearchQuery
namespace Text

def isBlank (c : Char) : Bool :=
  let n := c.toNat
  (0x09 ≤ n && n ≤ 0x0d) || n == 0x20 || n == 0x85 || n == 0xa0 || n == 0x1680 ||
    (0x2000 ≤ n && n ≤ 0x200a) || n == 0x2028 || n == 0x2029 || n == 0x202f || n == 0x205f ||
    n == 0x3000

/-- The text without the blanks at its start and at its end. -/
def trim (cs : List Char) : List Char :=
  ((cs.dropWhile isBlank).reverse.dropWhile isBlank).reverse

/-- A text that holds nothing but blanks; the empty text is one. -/
def isBlankText (s : String) : Bool :=
  s.toList.all isBlank

end Text
end SearchQuery
