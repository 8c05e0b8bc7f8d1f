import SearchQuery.Proofs.Script

/-!
# SearchQuery.Proofs.ScriptLiteral

Texts as literals of the script language.

A literal puts a backslash before each backslash and each quote of its text. The same comes out when
all backslashes are doubled first and each quote gets its backslash after that; in the other order
the backslashes of the quotes would be doubled as well. What stands between the quotes is then read
back character by character, and no quote in it ends the literal.

* `Text.replaceChar_quotes`    — the two replacements, one after the other.
* `Text.unescape_escape`       — the inside of a literal is read back.
* `Value.scriptLiteral_exact`  — literals of texts, and where they end in a script.
-/

namespace SearchQuery
namespace Text

/-! ## Replacing -/

/-- Puts `new` in the place of every `old`. -/
def replaceChar (old : Char) (new : List Char) (cs : List Char) : List Char :=
  cs.flatMap fun c => if c = old then new else [c]

theorem replaceChar_cons (old : Char) (new : List Char) (c : Char) (cs : List Char) :
    replaceChar old new (c :: cs) = (if c = old then new else [c]) ++ replaceChar old new cs :=
  rfl

/-- Backslashes are doubled before the quotes get theirs. -/
theorem replaceChar_quotes {delim : Char} (hdelim : delim ≠ '\\') (cs : List Char) :
    replaceChar delim ['\\', delim] (replaceChar '\\' ['\\', '\\'] cs) =
      escape (fun c => c = '\\' || c = delim) cs := by
  induction cs with
  | nil => rfl
  | cons c cs ih =>
    rw [replaceChar_cons, escape]
    by_cases hslash : c = '\\'
    · subst hslash
      simp [replaceChar_cons, hdelim.symm, ih]
    · by_cases hquote : c = delim
      · simp [replaceChar_cons, hquote, hdelim, ih]
      · simp [replaceChar_cons, hslash, hquote, ih]

/-! ## Reading -/

/-- The text that stands between two quotes, read from left to right. A backslash is passed over and
the character after it taken as it is; `none` when there is none after it, or when a quote is met
without one. -/
def unescape (delim : Char) : List Char → Option (List Char)
  | [] => some []
  | c :: cs =>
    if c = delim then none
    else if c = '\\' then
      match cs with
      | [] => none
      | d :: ds => (unescape delim ds).map (d :: ·)
    else (unescape delim cs).map (c :: ·)

theorem unescape_escape {delim : Char} (hdelim : delim ≠ '\\') (cs : List Char) :
    unescape delim (escape (fun c => c = '\\' || c = delim) cs) = some cs := by
  induction cs with
  | nil => rfl
  | cons c cs ih =>
    rw [escape]
    by_cases hspecial : c = '\\' ∨ c = delim
    · rw [if_pos (by simpa using hspecial), unescape.eq_def]
      simp [hdelim.symm, ih]
    · rw [if_neg (by simpa using hspecial), unescape.eq_def]
      rw [not_or] at hspecial
      simp [hspecial, ih]

/-- With the replacements in the other order a quote is left alone. -/
example : unescape '\'' (replaceChar '\\' ['\\', '\\'] (replaceChar '\'' ['\\', '\''] ['\''])) =
    none := by
  decide

end Text

/-! ## Literals -/

namespace Value

open Text

theorem toList_scriptLiteral_text (s : String) :
    (text s).scriptLiteral.toList =
      '\'' :: (escape (fun c => c = '\\' || c = '\'') s.toList ++ ['\'']) := by
  simp [scriptLiteral, quote]

theorem scriptLiteral_text_inj {s t : String}
    (h : (text s).scriptLiteral = (text t).scriptLiteral) : s = t := by
  have hquote : '\'' ≠ '\\' := by decide
  have hchars := congrArg String.toList h
  rw [toList_scriptLiteral_text, toList_scriptLiteral_text] at hchars
  have hbodies := List.append_cancel_right (List.cons.inj hchars).2
  have hread : some s.toList = some t.toList := by
    rw [← unescape_escape hquote, hbodies, unescape_escape hquote]
  exact String.toList_inj.1 (Option.some.inj hread)

/-- Between its quotes the literal of a text has the text with all backslashes doubled and a
backslash before each quote. Read from left to right this is the text again, without a quote that
stands alone or a backslash at the end. So no other text has the same literal. In a script with a
default the literal of the default, whatever value it is, is read to its own end and no further. -/
theorem scriptLiteral_exact :
    (∀ s : String, ∃ body, (text s).scriptLiteral.toList = '\'' :: (body ++ ['\'']) ∧
      body = replaceChar '\'' ['\\', '\''] (replaceChar '\\' ['\\', '\\'] s.toList) ∧
      unescape '\'' body = some s.toList) ∧
    (∀ (field : String) (default : Value), ∃ code front back,
      (Source.fallback field default).script? = some code ∧
      front = (Source.docText field ++ ".empty ? ").toList ∧
      back = (" : " ++ Source.docText field ++ ".value").toList ∧
      code.toList = front ++ (default.scriptLiteral.toList ++ back) ∧
      Script.readLiteral (default.scriptLiteral.toList ++ back) = some (default.literal, back)) ∧
    ∀ s t : String, (text s).scriptLiteral = (text t).scriptLiteral → s = t := by
  have hquote : '\'' ≠ '\\' := by decide
  refine ⟨fun s => ?_, fun field default => ?_, fun s t => scriptLiteral_text_inj⟩
  · exact ⟨_, toList_scriptLiteral_text s, (replaceChar_quotes hquote _).symm,
      unescape_escape hquote _⟩
  · refine ⟨_, _, _, rfl, rfl, rfl, ?_, ?_⟩
    · simp
    · have hback : (" : " ++ Source.docText field ++ ".value").toList =
          ' ' :: (": " ++ Source.docText field ++ ".value").toList := by
        simp
      rw [hback]
      exact Script.readLiteral_scriptLiteral default _

end Value
end SearchQuery
