import SearchQuery.Text.Blank
import SearchQuery.Text.Quoted
import SearchQuery.Token.Basic

/-!
# SearchQuery.Token.Lexer

Reading tokens from a query text. Offsets count characters.

* `scan`            — one token from a text that starts with it.
* `Lexer.next`      — skips blanks and reads one token, or finds the end.
* `Lexer.lexemes`   — all tokens up to the end or the first error.
* `tokenize`        — the tokens of a whole text.

An error uses up the text: what follows it is the end.
-/

namespace SearchQuery

inductive LexError where
  /-- A phrase that is not closed, with the offset of its opening quote. -/
  | unterminatedPhrase (start : Nat)
  /-- A backslash at the end of the text, with the length of the text. -/
  | danglingEscape (offset : Nat)
  /-- A character that no token begins with, and its offset. -/
  | unexpectedChar (c : Char) (start : Nat)
  deriving DecidableEq

def LexError.message : LexError → String
  | .unterminatedPhrase start => "Unterminated phrase starting at offset " ++ toString start
  | .danglingEscape offset =>
    "Dangling escape at end of input (offset " ++ toString offset ++ ")"
  | .unexpectedChar c start =>
    "Unexpected character '" ++ c.toString ++ "' at offset " ++ toString start

/-! ## One token -/

/-- Characters that end a bare word. -/
def isBoundary (c : Char) : Bool :=
  Text.isBlank c || c = '(' || c = ')' || c = '[' || c = ']' || c = '\x7b' || c = '\x7d' ||
    c = ':' || c = '"'

/-- A bare word read from the start of a text. -/
structure Word where
  text : List Char
  /-- Whether a character of it was escaped; such a word is never a keyword. -/
  escaped : Bool
  rest : List Char

/-- Reads up to a boundary; a backslash stands for the character after it. `none` when a backslash
ends the text. -/
def readWord : List Char → Option Word
  | [] => some ⟨[], false, []⟩
  | c :: cs =>
    if c = '\\' then
      match cs with
      | [] => none
      | d :: ds => (readWord ds).map fun w => ⟨d :: w.text, true, w.rest⟩
    else if isBoundary c then some ⟨[], false, c :: cs⟩
    else (readWord cs).map fun w => ⟨c :: w.text, w.escaped, w.rest⟩

/-- The token that a word stands for. -/
def Word.token (w : Word) : Token :=
  let text := String.ofList w.text
  if w.escaped then .term text
  else if text = "AND" then .join .and
  else if text = "OR" then .join .or
  else if text = "NOT" then .not
  else if text = "TO" then .to
  else .term text

/-- Why no token could be read. -/
inductive ScanError where
  | unterminated
  | dangling
  | unexpected (c : Char)

/-- A word must have a character, or the one that stands in its place is reported. -/
def scanWord (cs : List Char) : Except ScanError (Token × List Char) :=
  match readWord cs with
  | none => .error .dangling
  | some w =>
    if w.text.isEmpty then .error (.unexpected (w.rest.head?.getD ' '))
    else .ok (w.token, w.rest)

def scanPhrase (cs : List Char) : Except ScanError (Token × List Char) :=
  match Text.readQuoted '"' cs with
  | none => .error .unterminated
  | some (body, rest) => .ok (.phrase (String.ofList body), rest)

/-- A sign between a colon and a digit belongs to the word that the digit starts. -/
def scanSign (afterColon : Bool) (occur : Occur) (cs : List Char) :
    Except ScanError (Token × List Char) :=
  if afterColon && cs.head?.any Char.isDigit then
    match readWord cs with
    | none => .error .dangling
    | some w => .ok (.term (occur.text ++ String.ofList w.text), w.rest)
  else .ok (.sign occur, cs)

/-- A comparison sign, with the equals sign that may follow it. -/
def scanComparison (strict weak : Comparison) : List Char → Token × List Char
  | '=' :: cs => (.compare weak, cs)
  | cs => (.compare strict, cs)

/-- Two equal characters are the connective; one alone starts a word. -/
def scanConnective (op : Connective) (c : Char) (cs : List Char) :
    Except ScanError (Token × List Char) :=
  if cs.head? = some c then .ok (.join op, cs.drop 1) else scanWord (c :: cs)

/-- The token at the start of `c :: cs`, where `c` is not blank, and the text after it. `afterColon`
tells whether a colon stands directly before `c`. -/
def scan (afterColon : Bool) (c : Char) (cs : List Char) : Except ScanError (Token × List Char) :=
  match c with
  | '(' => .ok (.openParen, cs)
  | ')' => .ok (.closeParen, cs)
  | '[' => .ok (.openRange true, cs)
  | ']' => .ok (.closeRange true, cs)
  | '\x7b' => .ok (.openRange false, cs)
  | '\x7d' => .ok (.closeRange false, cs)
  | ':' => .ok (.colon, cs)
  | '"' => scanPhrase cs
  | '+' => scanSign afterColon .required cs
  | '-' => scanSign afterColon .prohibited cs
  | '!' => .ok (.not, cs)
  | '&' => scanConnective .and '&' cs
  | '|' => scanConnective .or '|' cs
  | '>' => .ok (scanComparison .gt .ge cs)
  | '<' => .ok (scanComparison .lt .le cs)
  | c => scanWord (c :: cs)

/-! ## A whole text -/

/-- A token or an error with the offset at which it starts. -/
structure Lexeme where
  start : Nat
  token : Except LexError Token

/-- Where reading stands: the text not yet read, how many characters came before it, and whether the
last of them was a colon. -/
structure Lexer where
  rest : List Char
  offset : Nat := 0
  afterColon : Bool := false

namespace Lexer

def ofText (text : String) : Lexer :=
  { rest := text.toList }

/-- The error at a token that starts at `start`, when the text ends at `stop`. -/
def scanError (start stop : Nat) : ScanError → LexError
  | .unterminated => .unterminatedPhrase start
  | .dangling => .danglingEscape stop
  | .unexpected c => .unexpectedChar c start

/-- The next token or error, and the lexer after it. `none` at the end of the text. -/
def next (l : Lexer) : Option Lexeme × Lexer :=
  let start := l.offset + (l.rest.takeWhile Text.isBlank).length
  match l.rest.dropWhile Text.isBlank with
  | [] => (none, { rest := [], offset := start })
  | c :: cs =>
    let stop := start + cs.length + 1
    match scan (l.afterColon && start == l.offset) c cs with
    | .ok (t, rest) =>
      (some ⟨start, .ok t⟩, { rest, offset := stop - rest.length, afterColon := t == .colon })
    | .error e => (some ⟨start, .error (scanError start stop e)⟩, { rest := [], offset := stop })

end Lexer

/-! ## Progress -/

theorem readWord_length_le {cs : List Char} {w : Word} (h : readWord cs = some w) :
    w.rest.length ≤ cs.length := by
  fun_induction readWord cs generalizing w with
  | case1 => cases h; simp
  | case2 => cases h
  | case3 d ds ih =>
    obtain ⟨v, hv, rfl⟩ := Option.map_eq_some_iff.1 h
    have := ih hv
    simp only [List.length_cons]; omega
  | case4 c cs _ _ => cases h; simp
  | case5 c cs _ _ ih =>
    obtain ⟨v, hv, rfl⟩ := Option.map_eq_some_iff.1 h
    have := ih hv
    simp only [List.length_cons]; omega

/-- A word that starts with anything but a boundary uses up its first character. -/
theorem readWord_length_lt {c : Char} {cs : List Char} {w : Word} (hc : isBoundary c = false)
    (h : readWord (c :: cs) = some w) : w.rest.length < (c :: cs).length := by
  rw [readWord.eq_def] at h
  simp only [hc] at h
  split at h
  · split at h
    · cases h
    · obtain ⟨v, hv, rfl⟩ := Option.map_eq_some_iff.1 h
      have := readWord_length_le hv
      simp only [List.length_cons]; omega
  · obtain ⟨v, hv, rfl⟩ := Option.map_eq_some_iff.1 h
    have := readWord_length_le hv
    simp only [List.length_cons]; omega

theorem scanWord_of_readWord {cs : List Char} {w : Word} (h : readWord cs = some w)
    (hw : w.text ≠ []) : scanWord cs = .ok (w.token, w.rest) := by
  simp [scanWord, h, hw]

theorem scanWord_ok {cs rest : List Char} {t : Token} (h : scanWord cs = .ok (t, rest)) :
    ∃ w, readWord cs = some w ∧ w.text ≠ [] ∧ w.token = t ∧ w.rest = rest := by
  unfold scanWord at h
  split at h
  · cases h
  · rename_i w hw
    split at h
    · cases h
    · rename_i htext
      cases h
      exact ⟨w, hw, by simpa using htext, rfl, rfl⟩

theorem scanWord_length_lt {c : Char} {cs rest : List Char} {t : Token}
    (hc : isBoundary c = false) (h : scanWord (c :: cs) = .ok (t, rest)) :
    rest.length < (c :: cs).length := by
  obtain ⟨w, hw, -, -, rfl⟩ := scanWord_ok h
  exact readWord_length_lt hc hw

theorem scanConnective_length_lt {op : Connective} {c : Char} {cs rest : List Char} {t : Token}
    (hc : isBoundary c = false) (h : scanConnective op c cs = .ok (t, rest)) :
    rest.length < (c :: cs).length := by
  unfold scanConnective at h
  split at h
  · cases h; simp only [List.length_drop, List.length_cons]; omega
  · exact scanWord_length_lt hc h

theorem scanSign_length_le {b : Bool} {o : Occur} {cs rest : List Char} {t : Token}
    (h : scanSign b o cs = .ok (t, rest)) : rest.length ≤ cs.length := by
  unfold scanSign at h
  split at h
  · split at h
    · cases h
    · rename_i w hw
      cases h
      exact readWord_length_le hw
  · cases h; exact Nat.le_refl _

theorem scanPhrase_length_lt {cs rest : List Char} {t : Token}
    (h : scanPhrase cs = .ok (t, rest)) : rest.length < cs.length := by
  unfold scanPhrase at h
  split at h
  · cases h
  · rename_i body r hr
    cases h
    exact Text.readQuoted_length_lt hr

theorem scanComparison_length_le (strict weak : Comparison) (cs : List Char) :
    (scanComparison strict weak cs).2.length ≤ cs.length := by
  unfold scanComparison
  split <;> simp

/-- Every token covers at least one character. -/
theorem scan_length_lt {b : Bool} {c : Char} {cs rest : List Char} {t : Token}
    (hc : Text.isBlank c = false) (h : scan b c cs = .ok (t, rest)) :
    rest.length < (c :: cs).length := by
  unfold scan at h
  split at h
  case h_8 => have := scanPhrase_length_lt h; simp only [List.length_cons]; omega
  case h_9 => have := scanSign_length_le h; simp only [List.length_cons]; omega
  case h_10 => have := scanSign_length_le h; simp only [List.length_cons]; omega
  case h_12 => exact scanConnective_length_lt (by decide) h
  case h_13 => exact scanConnective_length_lt (by decide) h
  case h_14 =>
    have := scanComparison_length_le .gt .ge cs
    rw [Except.ok.inj h] at this
    exact Nat.lt_succ_of_le this
  case h_15 =>
    have := scanComparison_length_le .lt .le cs
    rw [Except.ok.inj h] at this
    exact Nat.lt_succ_of_le this
  case h_16 => exact scanWord_length_lt (by simp_all [isBoundary]) h
  all_goals cases h; simp

theorem Lexer.next_length_lt {l l' : Lexer} {x : Lexeme} (h : l.next = (some x, l')) :
    l'.rest.length < l.rest.length := by
  have hle : (l.rest.dropWhile Text.isBlank).length ≤ l.rest.length :=
    (List.dropWhile_sublist _).length_le
  unfold Lexer.next at h
  split at h
  · cases h
  · rename_i c cs hd
    have hc : Text.isBlank c = false := by
      have := List.head?_dropWhile_not Text.isBlank l.rest
      simpa [hd] using this
    rw [hd] at hle
    dsimp only at h
    split at h
    · rename_i t rest ht
      cases h
      exact Nat.lt_of_lt_of_le (scan_length_lt hc ht) hle
    · cases h
      simp only [List.length_nil, List.length_cons] at hle ⊢
      omega

/-- All lexemes up to the end; an error can only be the last one. -/
def Lexer.lexemes (l : Lexer) : List Lexeme :=
  match _h : l.next with
  | (none, _) => []
  | (some x, l') => x :: l'.lexemes
termination_by l.rest.length
decreasing_by exact Lexer.next_length_lt _h

def tokenize (text : String) : Except LexError (List Token) :=
  (Lexer.ofText text).lexemes.mapM fun x => x.token

end SearchQuery
