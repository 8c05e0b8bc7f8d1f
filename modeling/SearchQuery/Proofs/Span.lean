import Mathlib.Data.List.TakeWhile
import Mathlib.Order.Monotone.Basic
import SearchQuery.Token.Lexer

/-!
# SearchQuery.Proofs.Span

The characters that a token is read from.

A token has at least one character, and what stands between two tokens is blank. Its own characters
decide which token it is, together with the first one after them, which did not go on with it. Another
one in that place makes no difference if it ends every word.

* `scan_span`        — the characters of one token, and what may stand after them.
* `scan_term_ne`     — no word is empty.
* `scan_error`       — which errors occur.
* `Lexer.next_passes` — what one call of the lexer passes over.
* `Lexer.StandsIn`   — where a lexer stands in its text, kept by every call.
* `Lexer.covers`     — what any number of calls has passed over is blank or was read.
* `calls_cover_text` — all calls on a text.
-/

namespace SearchQuery

/-! ## What may stand after a token -/

/-- A word that ends here is complete. -/
def EndsWord (rest : List Char) : Prop :=
  ∀ c ∈ rest.head?, isBoundary c = true

theorem endsWord_nil : EndsWord [] := by
  intro c hc
  cases hc

theorem endsWord_cons {c : Char} (cs : List Char) (hc : isBoundary c = true) :
    EndsWord (c :: cs) := by
  intro d hd
  obtain rfl : c = d := Option.some.inj hd
  exact hc

theorem EndsWord.head?_ne {c : Char} {rest : List Char} (h : EndsWord rest)
    (hc : isBoundary c = false) : rest.head? ≠ some c := by
  intro hhead
  have hb := h c hhead
  rw [hc] at hb
  cases hb

/-- A token that ends before `rest` also ends before `rest'`. -/
def EndsAlike (rest rest' : List Char) : Prop :=
  rest'.head? = rest.head? ∨ EndsWord rest'

theorem EndsAlike.endsWord {rest rest' : List Char} (h : EndsAlike rest rest')
    (hrest : EndsWord rest) : EndsWord rest' := by
  rcases h with hhead | hends
  · intro c hc
    exact hrest c (hhead ▸ hc)
  · exact hends

theorem EndsAlike.head?_ne {c : Char} {rest rest' : List Char} (h : EndsAlike rest rest')
    (hc : isBoundary c = false) (hrest : rest.head? ≠ some c) : rest'.head? ≠ some c := by
  rcases h with hhead | hends
  · rw [hhead]
    exact hrest
  · exact hends.head?_ne hc

theorem endsAlike_append (rest : List Char) {suffix : List Char} (h : EndsWord suffix) :
    EndsAlike rest (rest ++ suffix) := by
  cases rest with
  | nil => exact .inr h
  | cons c cs => exact .inl rfl

theorem endsAlike_front (front tail : List Char) : EndsAlike (front ++ tail) front := by
  cases front with
  | nil => exact .inr endsWord_nil
  | cons c cs => exact .inl rfl

theorem not_isBoundary_of_isDigit {c : Char} (h : c.isDigit = true) : isBoundary c = false := by
  have hrange : 48 ≤ c.toNat ∧ c.toNat ≤ 57 := by
    simpa [Char.isDigit, Char.le_def, UInt32.le_iff_toNat_le] using h
  have hblank : Text.isBlank c = false := by
    simp only [Text.isBlank, Bool.or_eq_false_iff, Bool.and_eq_false_iff, beq_eq_false_iff_ne,
      decide_eq_false_iff_not]
    omega
  have hne : ∀ d : Char, d.toNat < 48 ∨ 57 < d.toNat → c ≠ d := by
    rintro d hd rfl
    omega
  simp [isBoundary, hblank, hne]

/-! ## The characters of a token -/

theorem readWord_of_endsWord {rest : List Char} (h : EndsWord rest) :
    readWord rest = some ⟨[], false, rest⟩ := by
  cases rest with
  | nil => rfl
  | cons c cs =>
    have hc : isBoundary c = true := h c rfl
    have hne : c ≠ '\\' := by
      rintro rfl
      cases hc
    rw [readWord.eq_def]
    simp only [hne, if_false, hc, if_true]

theorem readWord_span {cs : List Char} {w : Word} (h : readWord cs = some w) :
    EndsWord w.rest ∧ ∃ span, cs = span ++ w.rest ∧
      ∀ rest', EndsWord rest' → readWord (span ++ rest') = some { w with rest := rest' } := by
  fun_induction readWord cs generalizing w with
  | case1 =>
    cases h
    exact ⟨endsWord_nil, [], rfl, fun _ => readWord_of_endsWord⟩
  | case2 => cases h
  | case3 d ds ih =>
    obtain ⟨v, hv, rfl⟩ := Option.map_eq_some_iff.1 h
    obtain ⟨hends, span, rfl, hspan⟩ := ih hv
    refine ⟨hends, '\\' :: d :: span, rfl, fun rest' hrest' => ?_⟩
    rw [List.cons_append, List.cons_append, readWord.eq_def]
    simp only [if_true, hspan rest' hrest', Option.map_some]
  | case4 c cs hne hc =>
    cases h
    exact ⟨endsWord_cons cs hc, [], rfl, fun _ => readWord_of_endsWord⟩
  | case5 c cs hne hc ih =>
    obtain ⟨v, hv, rfl⟩ := Option.map_eq_some_iff.1 h
    obtain ⟨hends, span, rfl, hspan⟩ := ih hv
    refine ⟨hends, c :: span, rfl, fun rest' hrest' => ?_⟩
    rw [List.cons_append, readWord.eq_def]
    simp only [hne, hc, if_false, Bool.false_eq_true, hspan rest' hrest', Option.map_some]

/-- A phrase has its end in itself, so anything may follow. -/
theorem readQuoted_span {delim : Char} {cs body rest : List Char}
    (h : Text.readQuoted delim cs = some (body, rest)) :
    ∃ span, cs = span ++ rest ∧
      ∀ rest', Text.readQuoted delim (span ++ rest') = some (body, rest') := by
  fun_induction Text.readQuoted delim cs generalizing body with
  | case1 => cases h
  | case2 cs =>
    cases h
    refine ⟨[delim], rfl, fun rest' => ?_⟩
    rw [List.cons_append, Text.readQuoted.eq_def]
    simp only [if_true, List.nil_append]
  | case3 => cases h
  | case4 d ds hne ih =>
    obtain ⟨⟨b, r⟩, hr, he⟩ := Option.map_eq_some_iff.1 h
    cases he
    obtain ⟨span, rfl, hspan⟩ := ih hr
    refine ⟨'\\' :: d :: span, rfl, fun rest' => ?_⟩
    rw [List.cons_append, List.cons_append, Text.readQuoted.eq_def]
    simp only [hne, if_true, if_false, hspan rest', Option.map_some]
  | case5 c cs hne hslash ih =>
    obtain ⟨⟨b, r⟩, hr, he⟩ := Option.map_eq_some_iff.1 h
    cases he
    obtain ⟨span, rfl, hspan⟩ := ih hr
    refine ⟨c :: span, rfl, fun rest' => ?_⟩
    rw [List.cons_append, Text.readQuoted.eq_def]
    simp only [hne, hslash, if_false, hspan rest', Option.map_some]

/-- What `scanner` takes from `cs` for the token `t`, leaving `rest`. It takes the same wherever the
token ends. -/
def Spans (scanner : List Char → Except ScanError (Token × List Char)) (cs : List Char) (t : Token)
    (rest : List Char) : Prop :=
  ∃ span, cs = span ++ rest ∧
    ∀ rest', EndsAlike rest rest' → scanner (span ++ rest') = .ok (t, rest')

section Scanners

variable {cs rest : List Char} {t : Token}

theorem scanWord_span {c : Char} (hc : isBoundary c = false)
    (h : scanWord (c :: cs) = .ok (t, rest)) :
    EndsWord rest ∧ Spans (fun cs => scanWord (c :: cs)) cs t rest := by
  have hlength := scanWord_length_lt hc h
  obtain ⟨w, hw, htext, rfl, rfl⟩ := scanWord_ok h
  obtain ⟨hends, span, hcs, hspan⟩ := readWord_span hw
  refine ⟨hends, ?_⟩
  cases span with
  | nil =>
    rw [List.nil_append] at hcs
    rw [hcs] at hlength
    exact absurd hlength (Nat.lt_irrefl _)
  | cons d span =>
    obtain ⟨rfl, rfl⟩ := List.cons.inj hcs
    refine ⟨span, rfl, fun rest' hrest' => ?_⟩
    dsimp only
    rw [← List.cons_append, scanWord_of_readWord (hspan rest' (hrest'.endsWord hends)) htext]
    rfl

theorem scanPhrase_span (h : scanPhrase cs = .ok (t, rest)) : Spans scanPhrase cs t rest := by
  unfold scanPhrase at h
  split at h
  · cases h
  · rename_i body r hr
    cases h
    obtain ⟨span, rfl, hspan⟩ := readQuoted_span hr
    refine ⟨span, rfl, fun rest' _ => ?_⟩
    rw [scanPhrase, hspan rest']

/-- A digit after a sign is there already or does not come. -/
theorem scanSign_span {afterColon : Bool} {o : Occur}
    (h : scanSign afterColon o cs = .ok (t, rest)) : Spans (scanSign afterColon o) cs t rest := by
  unfold scanSign at h
  split at h
  · rename_i hglued
    split at h
    · cases h
    · rename_i w hw
      cases h
      obtain ⟨hends, span, rfl, hspan⟩ := readWord_span hw
      refine ⟨span, rfl, fun rest' hrest' => ?_⟩
      have hhead : (span ++ rest').head? = (span ++ w.rest).head? := by
        cases span with
        | cons d ds => rfl
        | nil =>
          -- the digit would end the word before it begins
          obtain ⟨d, hd, hdigit⟩ :=
            Option.any_eq_true _ _ |>.1 (Bool.and_eq_true_iff.1 hglued).2
          exact absurd hd (hends.head?_ne (not_isBoundary_of_isDigit hdigit))
      rw [scanSign, hhead, if_pos hglued, hspan rest' (hrest'.endsWord hends)]
  · rename_i hfree
    cases h
    refine ⟨[], rfl, fun rest' hrest' => ?_⟩
    rw [scanSign, if_neg]
    · rfl
    · rw [Bool.and_eq_true_iff, Option.any_eq_true] at hfree ⊢
      rintro ⟨hcolon, d, hd, hdigit⟩
      refine hrest'.head?_ne (not_isBoundary_of_isDigit hdigit) (fun hd' => ?_) hd
      exact hfree ⟨hcolon, d, hd', hdigit⟩

theorem scanConnective_span {op : Connective} {c : Char} (hc : isBoundary c = false)
    (h : scanConnective op c cs = .ok (t, rest)) : Spans (scanConnective op c) cs t rest := by
  unfold scanConnective at h
  split at h
  · rename_i hpair
    cases h
    cases cs with
    | nil => cases hpair
    | cons d ds =>
      refine ⟨[d], rfl, fun rest' _ => ?_⟩
      rw [scanConnective, if_pos (show ([d] ++ rest').head? = some c from hpair)]
      rfl
  · rename_i hsingle
    obtain ⟨hends, span, rfl, hspan⟩ := scanWord_span hc h
    refine ⟨span, rfl, fun rest' hrest' => ?_⟩
    have hsingle' : (span ++ rest').head? ≠ some c := by
      cases span with
      | cons d ds => exact hsingle
      | nil => exact (hrest'.endsWord hends).head?_ne hc
    rw [scanConnective, if_neg hsingle']
    exact hspan rest' hrest'

theorem scanComparison_open (strict weak : Comparison) {cs : List Char}
    (h : cs.head? ≠ some '=') : scanComparison strict weak cs = (.compare strict, cs) := by
  unfold scanComparison
  split
  · exact absurd rfl h
  · rfl

theorem scanComparison_span {strict weak : Comparison}
    (h : scanComparison strict weak cs = (t, rest)) :
    Spans (fun cs => .ok (scanComparison strict weak cs)) cs t rest := by
  by_cases hcs : cs.head? = some '='
  · cases cs with
    | nil => cases hcs
    | cons d ds =>
      obtain rfl : d = '=' := Option.some.inj hcs
      cases h
      exact ⟨['='], rfl, fun rest' _ => rfl⟩
  · rw [scanComparison_open strict weak hcs] at h
    cases h
    refine ⟨[], rfl, fun rest' hrest' => ?_⟩
    dsimp only
    rw [List.nil_append, scanComparison_open strict weak (hrest'.head?_ne (by decide) hcs)]

/-- The characters of a token after its first one. -/
theorem scan_span {afterColon : Bool} {c : Char} (hc : Text.isBlank c = false)
    (h : scan afterColon c cs = .ok (t, rest)) : Spans (scan afterColon c) cs t rest := by
  -- a token of one character takes nothing more
  have hone : ∀ {u : Token}, (fun cs => scan afterColon c cs) = (fun cs => .ok (u, cs)) →
      Spans (scan afterColon c) cs t rest := by
    intro u hu
    rw [show scan afterColon c = fun cs => .ok (u, cs) from hu] at h ⊢
    cases h
    exact ⟨[], rfl, fun rest' _ => rfl⟩
  unfold Spans
  unfold scan at h ⊢
  split at h
  case h_8 => exact scanPhrase_span h
  case h_9 => exact scanSign_span h
  case h_10 => exact scanSign_span h
  case h_12 => exact scanConnective_span (by decide) h
  case h_13 => exact scanConnective_span (by decide) h
  case h_14 => exact scanComparison_span (Except.ok.inj h)
  case h_15 => exact scanComparison_span (Except.ok.inj h)
  case h_16 => exact (scanWord_span (by simp_all [isBoundary]) h).2
  all_goals exact hone rfl

end Scanners

/-! ## What is never read -/

theorem Word.text_of_token {w : Word} {s : String} (h : w.token = .term s) : s.toList = w.text := by
  unfold Word.token at h
  dsimp only at h
  have hterm : Token.term (String.ofList w.text) = .term s → s.toList = w.text := by
    intro hs
    rw [← Token.term.inj hs, String.toList_ofList]
  split at h
  · exact hterm h
  · split at h
    · cases h
    · split at h
      · cases h
      · split at h
        · cases h
        · split at h
          · cases h
          · exact hterm h

theorem scanWord_term_ne {cs rest : List Char} {s : String}
    (h : scanWord cs = .ok (.term s, rest)) : s ≠ "" := by
  obtain ⟨w, -, htext, htoken, -⟩ := scanWord_ok h
  rintro rfl
  exact htext (Word.text_of_token htoken).symm

theorem scanSign_term_ne {afterColon : Bool} {o : Occur} {cs rest : List Char} {s : String}
    (h : scanSign afterColon o cs = .ok (.term s, rest)) : s ≠ "" := by
  unfold scanSign at h
  split at h
  · split at h
    · cases h
    · obtain ⟨hs, -⟩ := Prod.mk.inj (Except.ok.inj h)
      rw [← Token.term.inj hs]
      cases o <;> simp [Occur.text]
  · cases h

theorem scan_term_ne {afterColon : Bool} {c : Char} {cs rest : List Char} {s : String}
    (h : scan afterColon c cs = .ok (.term s, rest)) : s ≠ "" := by
  have hconnective : ∀ {op : Connective} {d : Char},
      scanConnective op d cs = .ok (.term s, rest) → s ≠ "" := by
    intro op d hscan
    unfold scanConnective at hscan
    split at hscan
    · cases hscan
    · exact scanWord_term_ne hscan
  unfold scan at h
  split at h
  case h_8 =>
    unfold scanPhrase at h
    split at h <;> cases h
  case h_9 => exact scanSign_term_ne h
  case h_10 => exact scanSign_term_ne h
  case h_12 => exact hconnective h
  case h_13 => exact hconnective h
  case h_14 =>
    unfold scanComparison at h
    split at h <;> cases h
  case h_15 =>
    unfold scanComparison at h
    split at h <;> cases h
  case h_16 => exact scanWord_term_ne h
  all_goals cases h

theorem readWord_text_ne {c : Char} {cs : List Char} {w : Word} (hc : isBoundary c = false)
    (h : readWord (c :: cs) = some w) : w.text ≠ [] := by
  rw [readWord.eq_def] at h
  simp only [hc] at h
  split at h
  · split at h
    · cases h
    · obtain ⟨v, -, rfl⟩ := Option.map_eq_some_iff.1 h
      exact List.cons_ne_nil _ _
  · obtain ⟨v, -, rfl⟩ := Option.map_eq_some_iff.1 h
    exact List.cons_ne_nil _ _

/-- A word that starts with anything but a boundary has a character. -/
theorem scanWord_error {c : Char} {cs : List Char} {e : ScanError} (hc : isBoundary c = false)
    (h : scanWord (c :: cs) = .error e) : e = .dangling := by
  cases hw : readWord (c :: cs) with
  | none =>
    rw [scanWord, hw] at h
    cases h
    rfl
  | some w =>
    rw [scanWord_of_readWord hw (readWord_text_ne hc hw)] at h
    cases h

theorem scanSign_error {afterColon : Bool} {o : Occur} {cs : List Char} {e : ScanError}
    (h : scanSign afterColon o cs = .error e) : e = .dangling := by
  unfold scanSign at h
  split at h
  · split at h
    · cases h
      rfl
    · cases h
  · cases h

theorem scanConnective_error {op : Connective} {c : Char} {cs : List Char} {e : ScanError}
    (hc : isBoundary c = false) (h : scanConnective op c cs = .error e) : e = .dangling := by
  unfold scanConnective at h
  split at h
  · cases h
  · exact scanWord_error hc h

/-- Where no other token begins there is a word, so that no character is unexpected; and only a quote
opens a phrase. -/
theorem scan_error {afterColon : Bool} {c : Char} {cs : List Char} {e : ScanError}
    (hc : Text.isBlank c = false) (h : scan afterColon c cs = .error e) :
    e = .unterminated ∧ c = '"' ∨ e = .dangling := by
  unfold scan at h
  split at h
  case h_8 =>
    unfold scanPhrase at h
    split at h
    · cases h
      exact .inl ⟨rfl, rfl⟩
    · cases h
  case h_9 => exact .inr (scanSign_error h)
  case h_10 => exact .inr (scanSign_error h)
  case h_12 => exact .inr (scanConnective_error (by decide) h)
  case h_13 => exact .inr (scanConnective_error (by decide) h)
  case h_16 => exact .inr (scanWord_error (by simp_all [isBoundary]) h)
  all_goals cases h

/-! ## One call -/

namespace Lexer

/-- What one call does: it finds nothing but blanks, or after them a token, or an error. -/
inductive Call (l : Lexer) : Option Lexeme × Lexer → Prop where
  | done (hblank : ∀ c ∈ l.rest, Text.isBlank c = true) :
      Call l (none, { rest := [], offset := l.offset + l.rest.length })
  | token {blanks cs rest : List Char} {c : Char} {t : Token} (hrest : l.rest = blanks ++ c :: cs)
      (hblank : ∀ b ∈ blanks, Text.isBlank b = true) (hc : Text.isBlank c = false)
      (hscan : scan (l.afterColon && blanks.isEmpty) c cs = .ok (t, rest)) :
      Call l (some ⟨l.offset + blanks.length, .ok t⟩,
        { rest
          offset := l.offset + blanks.length + cs.length + 1 - rest.length
          afterColon := t == .colon })
  | error {blanks cs : List Char} {c : Char} {e : ScanError} (hrest : l.rest = blanks ++ c :: cs)
      (hblank : ∀ b ∈ blanks, Text.isBlank b = true) (hc : Text.isBlank c = false)
      (hscan : scan (l.afterColon && blanks.isEmpty) c cs = .error e) :
      Call l
        (some ⟨l.offset + blanks.length, .error (scanError (l.offset + blanks.length)
          (l.offset + blanks.length + cs.length + 1) e)⟩,
        { rest := [], offset := l.offset + blanks.length + cs.length + 1 })

theorem next_call (l : Lexer) : l.Call l.next := by
  have hblank : ∀ b ∈ l.rest.takeWhile Text.isBlank, Text.isBlank b = true :=
    fun b hb => List.mem_takeWhile_imp hb
  have hsplit : l.rest = l.rest.takeWhile Text.isBlank ++ l.rest.dropWhile Text.isBlank :=
    List.takeWhile_append_dropWhile.symm
  have hcolon : (l.offset + (l.rest.takeWhile Text.isBlank).length == l.offset) =
      (l.rest.takeWhile Text.isBlank).isEmpty := by
    cases l.rest.takeWhile Text.isBlank <;> simp
  unfold next
  split
  · rename_i hd
    rw [hd, List.append_nil] at hsplit
    have hdone : ∀ c ∈ l.rest, Text.isBlank c = true := by
      rw [hsplit]
      exact hblank
    rw [← hsplit]
    exact .done hdone
  · rename_i c cs hd
    have hc : Text.isBlank c = false := by
      have hhead := List.head?_dropWhile_not Text.isBlank l.rest
      simpa [hd] using hhead
    rw [hd] at hsplit
    dsimp only
    rw [hcolon]
    split
    · rename_i t rest hscan
      exact .token hsplit hblank hc hscan
    · rename_i e hscan
      exact .error hsplit hblank hc hscan

/-- A call that finds `found` passes over blanks and then over what it reads. -/
structure Passes (l : Lexer) (found : Option Lexeme) (l' : Lexer) (blanks span : List Char) :
    Prop where
  rest : l.rest = blanks ++ span ++ l'.rest
  offset : l'.offset = l.offset + blanks.length + span.length
  blank : ∀ c ∈ blanks, Text.isBlank c = true
  nothing : span = [] ↔ found = none
  ended : found = none → l'.rest = []
  start : ∀ x ∈ found, x.start = l.offset + blanks.length

theorem next_passes (l : Lexer) : ∃ blanks span, l.Passes l.next.1 l.next.2 blanks span := by
  have hcall := l.next_call
  generalize l.next = result at hcall
  cases hcall with
  | done hblank =>
    refine ⟨l.rest, [], ?_, rfl, hblank, ?_, ?_, ?_⟩
    · simp
    · simp
    · exact fun _ => rfl
    · simp
  | @token blanks cs rest c t hrest hblank hc hscan =>
    obtain ⟨span, rfl, -⟩ := scan_span hc hscan
    refine ⟨blanks, c :: span, ?_, ?_, hblank, ?_, ?_, ?_⟩
    · rw [hrest, List.append_assoc]
      rfl
    · simp only [List.length_append, List.length_cons]
      omega
    · simp
    · simp
    · simp
  | @error blanks cs c e hrest hblank hc hscan =>
    refine ⟨blanks, c :: cs, ?_, ?_, hblank, ?_, ?_, ?_⟩
    · rw [hrest, List.append_nil]
    · simp only [List.length_cons]
      omega
    · simp
    · simp
    · simp

theorem next_term_ne {l l' : Lexer} {start : Nat} {s : String}
    (h : l.next = (some ⟨start, .ok (.term s)⟩, l')) : s ≠ "" := by
  have hcall := l.next_call
  rw [h] at hcall
  cases hcall with
  | token hrest hblank hc hscan => exact scan_term_ne hscan

/-- The two errors that occur, and what they carry. -/
theorem next_error {l l' : Lexer} {start : Nat} {e : LexError}
    (h : l.next = (some ⟨start, .error e⟩, l')) : l'.rest = [] ∧
      (e = .unterminatedPhrase start ∧ l.rest[start - l.offset]? = some '"' ∨
        e = .danglingEscape l'.offset) := by
  have hcall := l.next_call
  rw [h] at hcall
  cases hcall with
  | @error blanks cs c e hrest hblank hc hscan =>
    refine ⟨rfl, ?_⟩
    rcases scan_error hc hscan with ⟨rfl, rfl⟩ | rfl
    · refine .inl ⟨rfl, ?_⟩
      rw [hrest, Nat.add_sub_cancel_left, List.getElem?_append_right (Nat.le_refl _), Nat.sub_self]
      rfl
    · exact .inr rfl

/-! ## Many calls -/

/-- The lexer after `n` calls. -/
def after (l : Lexer) : Nat → Lexer
  | 0 => l
  | n + 1 => (l.after n).next.2

/-- What is found by the call that comes after `n` others; `none` is the end of the text. -/
def call (l : Lexer) (n : Nat) : Option Lexeme :=
  (l.after n).next.1

/-- The offset up to which that call has read. -/
def stop (l : Lexer) (n : Nat) : Nat :=
  (l.after (n + 1)).offset

/-- The offset that is reported after that call: where the token or the error begins, or where the
text ends. -/
def position (l : Lexer) (n : Nat) : Nat :=
  match l.call n with
  | some x => x.start
  | none => l.stop n

/-- There is nothing to be found after an error, or after the end. -/
def Final (found : Option Lexeme) : Prop :=
  ∀ x ∈ found, ∃ e, x.token = .error e

/-- Where a lexer stands in a text: the characters before it are counted by its offset. -/
def StandsIn (cs : List Char) (l : Lexer) : Prop :=
  ∃ before, cs = before ++ l.rest ∧ before.length = l.offset

theorem standsIn_ofText (text : String) : StandsIn text.toList (ofText text) :=
  ⟨[], rfl, rfl⟩

section Calls

variable {cs : List Char} {l : Lexer}

theorem StandsIn.length_eq (h : StandsIn cs l) : cs.length = l.offset + l.rest.length := by
  obtain ⟨before, rfl, hbefore⟩ := h
  rw [List.length_append, hbefore]

theorem StandsIn.passes {l' : Lexer} {found : Option Lexeme} {blanks span : List Char}
    (h : StandsIn cs l) (hpasses : l.Passes found l' blanks span) : StandsIn cs l' := by
  obtain ⟨before, rfl, hbefore⟩ := h
  refine ⟨before ++ blanks ++ span, ?_, ?_⟩
  · simp only [hpasses.rest, List.append_assoc]
  · rw [hpasses.offset, List.length_append, List.length_append, hbefore]

theorem StandsIn.after (h : StandsIn cs l) (n : Nat) : StandsIn cs (l.after n) := by
  induction n with
  | zero => exact h
  | succ n ih =>
    obtain ⟨blanks, span, hpasses⟩ := (l.after n).next_passes
    exact ih.passes hpasses

theorem call_passes (l : Lexer) (n : Nat) :
    ∃ blanks span, (l.after n).Passes (l.call n) (l.after (n + 1)) blanks span :=
  (l.after n).next_passes

theorem offset_mono (l : Lexer) : Monotone fun n => (l.after n).offset := by
  refine monotone_nat_of_le_succ fun n => ?_
  obtain ⟨blanks, span, hpasses⟩ := l.call_passes n
  rw [hpasses.offset]
  omega

/-- What a call finds begins where the call before it stopped, or later, and is not empty. -/
theorem start_bounds {n : Nat} {x : Lexeme} (h : l.call n = some x) :
    (l.after n).offset ≤ x.start ∧ x.start < l.stop n := by
  obtain ⟨blanks, span, hpasses⟩ := l.call_passes n
  have hstart := hpasses.start x h
  have hspan : span ≠ [] := by
    intro hnil
    rw [hpasses.nothing.1 hnil] at h
    cases h
  have hpos := List.length_pos_iff.2 hspan
  have hoffset := hpasses.offset
  rw [stop]
  omega

/-- A character that was passed over is blank or was read. -/
theorem covers (h : StandsIn cs l) (hstart : l.offset = 0) {i : Nat} {c : Char}
    (hc : cs[i]? = some c) : ∀ n, i < (l.after n).offset →
      Text.isBlank c = true ∨ ∃ k x, l.call k = some x ∧ x.start ≤ i ∧ i < l.stop k
  | 0, hi => by
    rw [Lexer.after, hstart] at hi
    exact absurd hi (Nat.not_lt_zero i)
  | n + 1, hi => by
    by_cases hbefore : i < (l.after n).offset
    · exact covers h hstart hc n hbefore
    obtain ⟨blanks, span, hpasses⟩ := l.call_passes n
    obtain ⟨before, hcs, hlength⟩ := h.after n
    have hoffset := hpasses.offset
    by_cases hblank : i < (l.after n).offset + blanks.length
    · -- the character stands among the blanks of this call
      left
      rw [hcs, hpasses.rest, List.getElem?_append_right (by omega), List.append_assoc,
        List.getElem?_append_left (by omega)] at hc
      exact hpasses.blank c (List.mem_of_getElem? hc)
    · right
      cases hfound : l.call n with
      | none =>
        have hspan := hpasses.nothing.2 hfound
        rw [hspan, List.length_nil] at hoffset
        omega
      | some x =>
        have hx := hpasses.start x hfound
        exact ⟨n, x, hfound, by omega, hi⟩

/-- Until nothing can be found any more, every call uses up a character. -/
theorem final_or_shorter (l : Lexer) (n : Nat) :
    (∃ k, k < n ∧ Final (l.call k)) ∨ (l.after n).rest.length + n ≤ l.rest.length := by
  induction n with
  | zero => exact .inr (Nat.le_refl _)
  | succ n ih =>
    rcases ih with ⟨k, hk, hfinal⟩ | hshorter
    · exact .inl ⟨k, Nat.lt_succ_of_lt hk, hfinal⟩
    · cases hfound : l.call n with
      | none => exact .inl ⟨n, Nat.lt_succ_self n, by rw [hfound]; intro x hx; cases hx⟩
      | some x =>
        have hlt : (l.after (n + 1)).rest.length < (l.after n).rest.length :=
          next_length_lt (Prod.ext hfound rfl)
        exact .inr (by omega)

theorem exists_final (l : Lexer) : ∃ n, n ≤ l.rest.length ∧ Final (l.call n) := by
  rcases l.final_or_shorter l.rest.length with ⟨k, hk, hfinal⟩ | hshorter
  · exact ⟨k, Nat.le_of_lt hk, hfinal⟩
  · refine ⟨l.rest.length, Nat.le_refl _, ?_⟩
    have hnil : (l.after l.rest.length).rest = [] := List.length_eq_zero_iff.1 (by omega)
    intro x hx
    have hlt : (l.after (l.rest.length + 1)).rest.length < (l.after l.rest.length).rest.length :=
      next_length_lt (Prod.ext hx rfl)
    rw [hnil] at hlt
    exact absurd hlt (Nat.not_lt_zero _)

/-- Once nothing is left, nothing more is found. -/
theorem call_of_rest_nil {n : Nat} (h : (l.after n).rest = []) :
    l.call n = none ∧ (l.after (n + 1)).rest = [] := by
  obtain ⟨blanks, span, hpasses⟩ := l.call_passes n
  have hrest := hpasses.rest
  rw [h] at hrest
  obtain ⟨hboth, hnil⟩ := List.append_eq_nil_iff.1 hrest.symm
  exact ⟨hpasses.nothing.1 (List.append_eq_nil_iff.1 hboth).2, hnil⟩

theorem rest_of_final {n : Nat} (h : Final (l.call n)) : (l.after (n + 1)).rest = [] := by
  cases hfound : l.call n with
  | none =>
    obtain ⟨blanks, span, hpasses⟩ := l.call_passes n
    exact hpasses.ended hfound
  | some x =>
    obtain ⟨e, he⟩ := h x hfound
    obtain ⟨start, token⟩ := x
    obtain rfl : token = .error e := he
    exact (next_error (Prod.ext hfound rfl)).1

theorem call_after_final {n m : Nat} (h : Final (l.call n)) (hm : n < m) :
    l.call m = none ∧ (l.after (m + 1)).rest = [] := by
  induction m, hm using Nat.le_induction with
  | base => exact call_of_rest_nil (rest_of_final h)
  | succ m _ ih => exact call_of_rest_nil ih.2

end Calls

end Lexer

/-! ## All calls on a text -/

open Lexer in
/-- Calls on a text. What is found has at least one character, lies within the text and behind
everything that was found before; all other characters are blank. No word is empty. An error reaches to
the end of the text: it is a phrase that is not closed, told by the place of its quote, or a backslash
with nothing after it, told by the length, and never an unexpected character. Within one call more than
there are characters comes the end or an error, and from then on there is only the end. -/
theorem calls_cover_text (text : String) :
    let l := Lexer.ofText text
    let cs := text.toList
    (∀ n x, l.call n = some x → x.start < l.stop n ∧ l.stop n ≤ cs.length ∧
      ∀ m y, n < m → l.call m = some y → l.stop n ≤ y.start) ∧
    (∀ (i : Nat) (c : Char), cs[i]? = some c →
      Text.isBlank c = true ∨ ∃ n x, l.call n = some x ∧ x.start ≤ i ∧ i < l.stop n) ∧
    (∀ n x s, l.call n = some x → x.token = .ok (.term s) → s ≠ "") ∧
    (∀ n x e, l.call n = some x → x.token = .error e → l.stop n = cs.length ∧
      (e = .unterminatedPhrase x.start ∧ cs[x.start]? = some '"' ∨
        e = .danglingEscape cs.length)) ∧
    (∃ n, n ≤ cs.length ∧ Final (l.call n)) ∧
    ∀ n m, Final (l.call n) → n < m → l.call m = none ∧ l.position m = cs.length := by
  intro l cs
  have hstands : StandsIn cs l := standsIn_ofText text
  refine ⟨?_, ?_, ?_, ?_, l.exists_final, ?_⟩
  · intro n x hx
    refine ⟨(start_bounds hx).2, ?_, fun m y hm hy => ?_⟩
    · have hlength := (hstands.after (n + 1)).length_eq
      rw [stop]
      omega
    · exact Nat.le_trans (l.offset_mono hm) (start_bounds hy).1
  · intro i c hc
    obtain ⟨n, -, hfinal⟩ := l.exists_final
    refine covers hstands rfl hc (n + 1) ?_
    have hlength := (hstands.after (n + 1)).length_eq
    rw [rest_of_final hfinal, List.length_nil, Nat.add_zero] at hlength
    rw [← hlength]
    exact (List.getElem?_eq_some_iff.1 hc).1
  · rintro n ⟨start, token⟩ s hx rfl
    exact next_term_ne (Prod.ext hx rfl)
  · rintro n ⟨start, token⟩ e hx rfl
    obtain ⟨hrest, herror⟩ := next_error (Prod.ext hx rfl)
    have hlength := (hstands.after (n + 1)).length_eq
    rw [show (l.after (n + 1)).rest = [] from hrest] at hlength
    refine ⟨hlength.symm, ?_⟩
    rcases herror with ⟨rfl, hquote⟩ | rfl
    · obtain ⟨before, hcs, hbefore⟩ := hstands.after n
      have hstart := (start_bounds hx).1
      refine .inl ⟨rfl, ?_⟩
      rw [hcs, List.getElem?_append_right (by omega), hbefore]
      exact hquote
    · exact .inr (by rw [hlength]; rfl)
  · intro n m hfinal hm
    obtain ⟨hnone, hrest⟩ := call_after_final hfinal hm
    refine ⟨hnone, ?_⟩
    have hlength := (hstands.after (m + 1)).length_eq
    rw [hrest] at hlength
    simp only [position, hnone]
    exact hlength.symm

/-- The sign belongs to the word after the colon, and the phrase that is not closed is the last thing
found. -/
theorem calls_cover_text_open_phrase :
    let l := Lexer.ofText "f:-1 \"x"
    (l.call 2).map Lexeme.token = some (.ok (.term "-1")) ∧ l.stop 2 = 4 ∧
      (l.call 3).map Lexeme.token = some (.error (.unterminatedPhrase 5)) ∧ l.stop 3 = 7 ∧
      l.call 4 = none ∧ l.position 4 = 7 := by
  intro l
  obtain ⟨-, -, -, herror, -, hend⟩ := calls_cover_text "f:-1 \"x"
  have hopen : (l.call 3).map Lexeme.token = some (.error (.unterminatedPhrase 5)) := by
    decide +kernel
  obtain ⟨x, hx, he⟩ := Option.map_eq_some_iff.1 hopen
  have hfinal : Lexer.Final (l.call 3) := by
    intro y hy
    obtain rfl := Option.some.inj (hx.symm.trans hy)
    exact ⟨_, he⟩
  exact ⟨by decide +kernel, by decide +kernel, hopen, (herror 3 x _ hx he).1,
    hend 3 4 hfinal (by decide)⟩

end SearchQuery
