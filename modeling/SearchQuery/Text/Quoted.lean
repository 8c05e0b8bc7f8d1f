/-!
# SearchQuery.Text.Quoted

Bodies of quoted texts. Inside quotes a backslash stands for the character after it, so a writer
puts one before each character that would otherwise be read in a special way.

* `escape special cs`    — `cs` with a backslash before every special character.
* `readQuoted delim cs`  — the text up to the closing `delim`, and what follows it.
-/

namespace SearchQuery
namespace Text

def escape (special : Char → Bool) : List Char → List Char
  | [] => []
  | c :: cs => if special c then '\\' :: c :: escape special cs else c :: escape special cs

/-- `cs` between two quotes, with a backslash before every special character. -/
def quote (delim : Char) (special : Char → Bool) (s : String) : String :=
  String.ofList (delim :: escape special s.toList ++ [delim])

/-- `none` when the closing `delim` is missing. -/
def readQuoted (delim : Char) : List Char → Option (List Char × List Char)
  | [] => none
  | c :: cs =>
    if c = delim then some ([], cs)
    else if c = '\\' then
      match cs with
      | [] => none
      | d :: ds => (readQuoted delim ds).map fun (body, rest) => (d :: body, rest)
    else (readQuoted delim cs).map fun (body, rest) => (c :: body, rest)

theorem readQuoted_length_lt {delim : Char} {cs body rest : List Char}
    (h : readQuoted delim cs = some (body, rest)) : rest.length < cs.length := by
  fun_induction readQuoted delim cs generalizing body with
  | case1 => cases h
  | case2 cs => cases h; simp
  | case3 => cases h
  | case4 d ds _ ih =>
    obtain ⟨⟨b, r⟩, hr, he⟩ := Option.map_eq_some_iff.1 h
    cases he
    have := ih hr
    simp only [List.length_cons]; omega
  | case5 c cs _ _ ih =>
    obtain ⟨⟨b, r⟩, hr, he⟩ := Option.map_eq_some_iff.1 h
    cases he
    have := ih hr
    simp only [List.length_cons]; omega

end Text
end SearchQuery
