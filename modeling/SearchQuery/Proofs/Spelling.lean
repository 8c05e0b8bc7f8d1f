import SearchQuery.Clause.Printer
import SearchQuery.Proofs.Span

/-!
# SearchQuery.Proofs.Spelling

How the tokens of a text are written, and what is read when they are written again.

* `Lexer.spelled`           — the tokens of a text with the characters they were read from.
* `EscapeFree`              — no bare word of a text is written with a backslash.
* `Rereads`                 — a word that is read as itself wherever a boundary follows it.
* `rereadAll_of_escapeFree` — the words of an escape-free text are read again as they were.
* `LexesTo`                 — what a list of characters is read as, piece by piece.
-/

namespace SearchQuery

/-! ## Lists of lexemes -/

theorem mapM_token_cons {x : Lexeme} {xs : List Lexeme} {ts : List Token}
    (h : (x :: xs).mapM Lexeme.token = .ok ts) :
    ∃ u us, x.token = .ok u ∧ xs.mapM Lexeme.token = .ok us ∧ ts = u :: us := by
  rw [List.mapM_cons] at h
  cases hx : x.token with
  | error e => rw [hx] at h; cases h
  | ok u =>
    rw [hx] at h
    cases hxs : xs.mapM Lexeme.token with
    | error e => rw [hxs] at h; cases h
    | ok us =>
      rw [hxs] at h
      exact ⟨u, us, rfl, rfl, (Except.ok.inj h).symm⟩

theorem mapM_token_length {xs : List Lexeme} {ts : List Token}
    (h : xs.mapM Lexeme.token = .ok ts) : ts.length = xs.length := by
  induction xs generalizing ts with
  | nil =>
    obtain rfl : ts = [] := (Except.ok.inj h).symm
    rfl
  | cons x xs ih =>
    obtain ⟨u, us, -, hxs, rfl⟩ := mapM_token_cons h
    rw [List.length_cons, List.length_cons, ih hxs]

namespace Lexer

theorem lexemes_nil {l l' : Lexer} (h : l.next = (none, l')) : l.lexemes = [] := by
  rw [lexemes]
  split
  · rfl
  · simp_all

theorem lexemes_cons {l l' : Lexer} {x : Lexeme} (h : l.next = (some x, l')) :
    l.lexemes = x :: l'.lexemes := by
  rw [lexemes]
  split
  · simp_all
  · rename_i hnext
    rw [h] at hnext
    cases hnext
    rfl

theorem next_of_lexemes {l : Lexer} {x : Lexeme} {xs : List Lexeme} (h : l.lexemes = x :: xs) :
    ∃ l', l.next = (some x, l') ∧ l'.lexemes = xs := by
  rcases hnext : l.next with ⟨_ | y, l'⟩
  · rw [lexemes_nil hnext] at h
    cases h
  · rw [lexemes_cons hnext] at h
    obtain ⟨rfl, hxs⟩ := List.cons.inj h
    exact ⟨l', rfl, hxs⟩

theorem lexemes_congr {l l' : Lexer} (h : l.next = l'.next) : l.lexemes = l'.lexemes := by
  rcases hnext : l'.next with ⟨_ | x, l''⟩
  · rw [lexemes_nil hnext, lexemes_nil (h.trans hnext)]
  · rw [lexemes_cons hnext, lexemes_cons (h.trans hnext)]

/-- A blank is passed over, and a colon before it is forgotten. -/
theorem next_blank {c : Char} {cs : List Char} {offset : Nat} {afterColon : Bool}
    (hc : Text.isBlank c = true) : next ⟨c :: cs, offset, afterColon⟩ = next ⟨cs, offset + 1, false⟩ := by
  have hstart : offset + ((cs.takeWhile Text.isBlank).length + 1) =
      offset + 1 + (cs.takeWhile Text.isBlank).length := by omega
  have hblank : (offset + 1 + (cs.takeWhile Text.isBlank).length == offset) = false := by
    rw [beq_eq_false_iff_ne]
    omega
  simp only [next, List.dropWhile_cons, List.takeWhile_cons, hc, if_true, List.length_cons, hstart,
    hblank, Bool.and_false, Bool.false_and]

/-! ## What a token covers -/

/-- The characters of the token between two states. Blanks in front are not part of it. -/
def covered (l l' : Lexer) : List Char :=
  let cs := l.rest.dropWhile Text.isBlank
  cs.take (cs.length - l'.rest.length)

/-- The tokens up to the end or the first error, each with the characters it was read from. -/
def spelled (l : Lexer) : List (Token × List Char) :=
  match _h : l.next with
  | (none, _) => []
  | (some ⟨_, .error _⟩, _) => []
  | (some ⟨_, .ok t⟩, l') => (t, l.covered l') :: l'.spelled
termination_by l.rest.length
decreasing_by exact Lexer.next_length_lt _h

theorem spelled_cons {l l' : Lexer} {start : Nat} {t : Token}
    (h : l.next = (some ⟨start, .ok t⟩, l')) : l.spelled = (t, l.covered l') :: l'.spelled := by
  rw [spelled]
  split
  · simp_all
  · simp_all
  · rename_i hnext
    rw [h] at hnext
    cases hnext
    rfl

theorem next_ok {l l' : Lexer} {start : Nat} {t : Token} (h : l.next = (some ⟨start, .ok t⟩, l')) :
    ∃ c cs, l.rest.dropWhile Text.isBlank = c :: cs ∧
      scan (l.afterColon && start == l.offset) c cs = .ok (t, l'.rest) ∧
      l'.afterColon = (t == .colon) := by
  unfold next at h
  split at h
  · cases h
  · rename_i c cs hd
    dsimp only at h
    split at h
    · rename_i u rest hscan
      cases h
      exact ⟨c, cs, hd, hscan, rfl⟩
    · cases h

end Lexer

def Token.isTerm : Token → Bool
  | .term _ => true
  | _ => false

/-- No bare word of the text is written with a backslash. In a phrase there may be some. -/
def EscapeFree (text : String) : Prop :=
  ∀ x ∈ (Lexer.ofText text).spelled, x.1.isTerm = true → '\\' ∉ x.2

instance (text : String) : Decidable (EscapeFree text) :=
  inferInstanceAs (Decidable (∀ x ∈ (Lexer.ofText text).spelled, x.1.isTerm = true → '\\' ∉ x.2))

/-! ## Words read again -/

/-- A character that stands for itself in a bare word. -/
def isWordChar (c : Char) : Bool :=
  !isBoundary c && c != '\\'

theorem isWordChar_iff {c : Char} : isWordChar c = true ↔ isBoundary c = false ∧ c ≠ '\\' := by
  simp [isWordChar]

theorem readWord_append {pre rest : List Char} (hpre : ∀ c ∈ pre, isWordChar c = true)
    (hrest : EndsWord rest) : readWord (pre ++ rest) = some ⟨pre, false, rest⟩ := by
  induction pre with
  | nil => exact readWord_of_endsWord hrest
  | cons c pre ih =>
    have hc := isWordChar_iff.1 (hpre c List.mem_cons_self)
    rw [List.cons_append, readWord.eq_def]
    simp only [hc.1, hc.2, if_false, Bool.false_eq_true]
    rw [ih fun d hd => hpre d (List.mem_cons_of_mem c hd)]
    rfl

/-- A word without a backslash is its own text. -/
theorem readWord_plain {cs : List Char} {w : Word} (h : readWord cs = some w) :
    ∃ pre, cs = pre ++ w.rest ∧ ('\\' ∉ pre → w.text = pre) := by
  fun_induction readWord cs generalizing w with
  | case1 =>
    cases h
    exact ⟨[], rfl, fun _ => rfl⟩
  | case2 => cases h
  | case3 d ds ih =>
    obtain ⟨v, hv, rfl⟩ := Option.map_eq_some_iff.1 h
    obtain ⟨pre, rfl, -⟩ := ih hv
    exact ⟨'\\' :: d :: pre, rfl, fun hplain => absurd List.mem_cons_self hplain⟩
  | case4 c cs _ _ =>
    cases h
    exact ⟨[], rfl, fun _ => rfl⟩
  | case5 c cs _ _ ih =>
    obtain ⟨v, hv, rfl⟩ := Option.map_eq_some_iff.1 h
    obtain ⟨pre, rfl, hpre⟩ := ih hv
    refine ⟨c :: pre, rfl, fun hplain => ?_⟩
    rw [hpre fun hmem => hplain (List.mem_cons_of_mem c hmem)]

section Plain

variable {span rest : List Char} {s : String}

theorem readWord_text {w : Word} (h : readWord (span ++ w.rest) = some w) (hplain : '\\' ∉ span) :
    w.text = span := by
  obtain ⟨pre, hcs, hpre⟩ := readWord_plain h
  obtain rfl : span = pre := List.append_cancel_right hcs
  exact hpre hplain

theorem scanWord_text (h : scanWord (span ++ rest) = .ok (.term s, rest)) (hplain : '\\' ∉ span) :
    s.toList = span := by
  obtain ⟨w, hw, -, htoken, rfl⟩ := scanWord_ok h
  exact (Word.text_of_token htoken).trans (readWord_text hw hplain)

theorem scanSign_text {afterColon : Bool} {o : Occur} {c : Char} (ho : o.text.toList = [c])
    (h : scanSign afterColon o (span ++ rest) = .ok (.term s, rest)) (hplain : '\\' ∉ span) :
    s.toList = c :: span := by
  unfold scanSign at h
  split at h
  · split at h
    · cases h
    · rename_i w hw
      obtain ⟨hs, rfl⟩ := Prod.mk.inj (Except.ok.inj h)
      rw [← Token.term.inj hs, String.toList_append, ho, String.toList_ofList,
        readWord_text hw hplain]
      rfl
  · cases h

theorem scan_text {afterColon : Bool} {c : Char}
    (h : scan afterColon c (span ++ rest) = .ok (.term s, rest)) (hplain : '\\' ∉ c :: span) :
    s.toList = c :: span := by
  have hspan : '\\' ∉ span := fun hmem => hplain (List.mem_cons_of_mem c hmem)
  have hconnective : ∀ {op : Connective} {d : Char}, '\\' ∉ d :: span →
      scanConnective op d (span ++ rest) = .ok (.term s, rest) → s.toList = d :: span := by
    intro op d hd hscan
    unfold scanConnective at hscan
    split at hscan
    · cases hscan
    · exact scanWord_text hscan hd
  unfold scan at h
  split at h
  case h_8 =>
    unfold scanPhrase at h
    split at h <;> cases h
  case h_9 => exact scanSign_text rfl h hspan
  case h_10 => exact scanSign_text rfl h hspan
  case h_12 => exact hconnective hplain h
  case h_13 => exact hconnective hplain h
  case h_14 =>
    unfold scanComparison at h
    split at h <;> cases h
  case h_15 =>
    unfold scanComparison at h
    split at h <;> cases h
  case h_16 => exact scanWord_text h hplain
  all_goals cases h

end Plain

/-- A word that is read as itself wherever it ends. -/
def Rereads (afterColon : Bool) (s : String) : Prop :=
  ∃ c cs, s.toList = c :: cs ∧ Text.isBlank c = false ∧
    ∀ rest, EndsWord rest → scan afterColon c (cs ++ rest) = .ok (.term s, rest)

/-- A sign is the only thing that a colon in front makes part of a word. -/
theorem scan_afterColon {c : Char} {cs rest : List Char} {s : String}
    (h : scan false c cs = .ok (.term s, rest)) : scan true c cs = .ok (.term s, rest) := by
  unfold scan at h ⊢
  split at h
  -- without a colon in front a sign is never part of a word
  case h_9 => cases h
  case h_10 => cases h
  all_goals exact h

theorem Rereads.afterColon {s : String} (h : Rereads false s) : Rereads true s := by
  obtain ⟨c, cs, hs, hc, hscan⟩ := h
  exact ⟨c, cs, hs, hc, fun rest hrest => scan_afterColon (hscan rest hrest)⟩

/-- Every word of these tokens reads as itself where it stands. -/
def RereadAll : Bool → List Token → Prop
  | _, [] => True
  | afterColon, t :: ts =>
    (∀ s, t = .term s → Rereads afterColon s) ∧ RereadAll (t == .colon) ts

theorem RereadAll.afterColon {ts : List Token} (h : RereadAll false ts) : RereadAll true ts := by
  cases ts with
  | nil => trivial
  | cons t ts => exact ⟨fun s hs => (h.1 s hs).afterColon, h.2⟩

theorem rereads_of_covered {l l' : Lexer} {start : Nat} {s : String}
    (h : l.next = (some ⟨start, .ok (.term s)⟩, l')) (hplain : '\\' ∉ l.covered l') :
    Rereads l.afterColon s := by
  obtain ⟨c, cs, hd, hscan, -⟩ := Lexer.next_ok h
  have hc : Text.isBlank c = false := by
    have := List.head?_dropWhile_not Text.isBlank l.rest
    simpa [hd] using this
  obtain ⟨span, rfl, hagain⟩ := scan_span hc hscan
  have hcovered : l.covered l' = c :: span := by
    have hlength : (c :: span ++ l'.rest).length - l'.rest.length = (c :: span).length := by
      rw [List.length_append, Nat.add_sub_cancel]
    rw [Lexer.covered, hd]
    exact (congrArg (fun n => (c :: span ++ l'.rest).take n) hlength).trans List.take_left
  rw [hcovered] at hplain
  have hscanned : Rereads (l.afterColon && start == l.offset) s :=
    ⟨c, span, scan_text hscan hplain, hc, fun rest hrest => hagain rest (.inr hrest)⟩
  -- blanks after the colon make the lexer forget it, and what reads as a word then does so anyway
  cases hcolon : l.afterColon && start == l.offset with
  | true =>
    rw [hcolon] at hscanned
    rw [(Bool.and_eq_true_iff.1 hcolon).1]
    exact hscanned
  | false =>
    rw [hcolon] at hscanned
    cases l.afterColon with
    | true => exact hscanned.afterColon
    | false => exact hscanned

/-- The words of an escape-free text read as themselves. -/
theorem rereadAll_of_spelled {l : Lexer} {ts : List Token}
    (hts : l.lexemes.mapM Lexeme.token = .ok ts)
    (h : ∀ x ∈ l.spelled, x.1.isTerm = true → '\\' ∉ x.2) : RereadAll l.afterColon ts := by
  fun_induction Lexer.lexemes l generalizing ts with
  | case1 l l' hnext =>
    obtain rfl : ts = [] := (Except.ok.inj hts).symm
    trivial
  | case2 l x l' hnext ih =>
    obtain ⟨t, us, hx, hus, rfl⟩ := mapM_token_cons hts
    obtain ⟨start, token⟩ := x
    obtain rfl : token = .ok t := hx
    rw [Lexer.spelled_cons hnext] at h
    obtain ⟨-, -, -, -, hcolon⟩ := Lexer.next_ok hnext
    refine ⟨?_, ?_⟩
    · rintro s rfl
      exact rereads_of_covered hnext (h _ List.mem_cons_self rfl)
    · rw [← hcolon]
      exact ih hus fun y hy => h y (List.mem_cons_of_mem _ hy)

theorem rereadAll_of_escapeFree {text : String} {ts : List Token} (hts : tokenize text = .ok ts)
    (h : EscapeFree text) : RereadAll false ts :=
  rereadAll_of_spelled hts h

/-! ## Phrases read again -/

theorem readQuoted_escape (delim : Char) (special : Char → Bool) (hdelim : special delim = true)
    (hslash : special '\\' = true) (hne : delim ≠ '\\') (cs rest : List Char) :
    Text.readQuoted delim (Text.escape special cs ++ delim :: rest) = some (cs, rest) := by
  induction cs with
  | nil =>
    rw [Text.escape, List.nil_append, Text.readQuoted.eq_def]
    simp only [if_true]
  | cons c cs ih =>
    rw [Text.escape]
    by_cases hc : special c = true
    · rw [if_pos hc, List.cons_append, Text.readQuoted.eq_def]
      simp only [hne.symm, if_false, if_true, List.cons_append, ih]
      rfl
    · have hcd : c ≠ delim := by
        rintro rfl
        exact hc hdelim
      have hcs : c ≠ '\\' := by
        rintro rfl
        exact hc hslash
      rw [if_neg hc, List.cons_append, Text.readQuoted.eq_def]
      simp only [hcd, hcs, if_false, ih]
      rfl

/-! ## Reading piece by piece -/

/-- The characters `cs` are read as the tokens `ts`, where `afterColon` tells whether a colon comes
directly before them. -/
def LexesTo (afterColon : Bool) (cs : List Char) (ts : List Token) : Prop :=
  ∀ offset, (Lexer.lexemes ⟨cs, offset, afterColon⟩).mapM Lexeme.token = .ok ts

theorem LexesTo.tokenize {text : String} {ts : List Token} (h : LexesTo false text.toList ts) :
    tokenize text = .ok ts :=
  h 0

namespace LexesTo

variable {afterColon : Bool} {cs rest : List Char} {ts : List Token}

theorem nil : LexesTo afterColon [] [] := by
  intro offset
  have hnext : Lexer.next ⟨[], offset, afterColon⟩ = (none, ⟨[], offset, false⟩) := rfl
  rw [Lexer.lexemes_nil hnext]
  rfl

theorem token {c : Char} {t : Token} (hc : Text.isBlank c = false)
    (hscan : scan afterColon c cs = .ok (t, rest)) (h : LexesTo (t == .colon) rest ts) :
    LexesTo afterColon (c :: cs) (t :: ts) := by
  intro offset
  have hnext : Lexer.next ⟨c :: cs, offset, afterColon⟩ =
      (some ⟨offset, .ok t⟩, ⟨rest, offset + cs.length + 1 - rest.length, t == .colon⟩) := by
    simp only [Lexer.next, List.dropWhile_cons, List.takeWhile_cons, hc, Bool.false_eq_true,
      if_false, List.length_nil, Nat.add_zero, beq_self_eq_true, Bool.and_true, hscan]
  rw [Lexer.lexemes_cons hnext, List.mapM_cons, h]
  rfl

theorem blank {c : Char} (hc : Text.isBlank c = true) (h : LexesTo false cs ts) :
    LexesTo afterColon (c :: cs) ts := by
  intro offset
  rw [Lexer.lexemes_congr (Lexer.next_blank hc)]
  exact h (offset + 1)

theorem word {s : String} (hs : Rereads afterColon s) (hrest : EndsWord rest)
    (h : LexesTo false rest ts) : LexesTo afterColon (s.toList ++ rest) (.term s :: ts) := by
  obtain ⟨c, cs, htext, hc, hscan⟩ := hs
  rw [htext]
  exact token hc (hscan rest hrest) h

theorem keyword (c : Char) (cs : List Char) {t : Token}
    (hscan : ∀ ds, scan afterColon c ds = scanWord (c :: ds))
    (hplain : (c :: cs).all isWordChar = true) (ht : (Word.token ⟨c :: cs, false, rest⟩) = t)
    (hne : t ≠ .colon) (hrest : EndsWord rest) (h : LexesTo false rest ts) :
    LexesTo afterColon (c :: cs ++ rest) (t :: ts) := by
  have hchars := List.all_eq_true.1 hplain
  have hc : Text.isBlank c = false := by
    have hb := (isWordChar_iff.1 (hchars c List.mem_cons_self)).1
    cases hblank : Text.isBlank c with
    | false => rfl
    | true => simp [isBoundary, hblank] at hb
  have hword : scan afterColon c (cs ++ rest) = .ok (t, rest) := by
    have hread := readWord_append hchars hrest
    rw [hscan, ← List.cons_append, scanWord_of_readWord hread (List.cons_ne_nil c cs), ← ht]
  have hcolon : (t == .colon) = false := beq_eq_false_iff_ne.2 hne
  refine token hc hword ?_
  rw [hcolon]
  exact h

theorem not (hrest : EndsWord rest) (h : LexesTo false rest ts) :
    LexesTo afterColon ("NOT".toList ++ rest) (.not :: ts) :=
  keyword 'N' ['O', 'T'] (fun _ => rfl) rfl rfl (by decide) hrest h

theorem join (op : Connective) (hrest : EndsWord rest) (h : LexesTo false rest ts) :
    LexesTo afterColon (op.text.toList ++ rest) (.join op :: ts) := by
  cases op with
  | and => exact keyword 'A' ['N', 'D'] (fun _ => rfl) rfl rfl (by decide) hrest h
  | or => exact keyword 'O' ['R'] (fun _ => rfl) rfl rfl (by decide) hrest h

theorem rangeTo (hrest : EndsWord rest) (h : LexesTo false rest ts) :
    LexesTo afterColon ("TO".toList ++ rest) (.to :: ts) :=
  keyword 'T' ['O'] (fun _ => rfl) rfl rfl (by decide) hrest h

theorem sign (o : Occur) (h : LexesTo false rest ts) :
    LexesTo false (o.text.toList ++ rest) (.sign o :: ts) := by
  cases o with
  | required => exact token (by decide) rfl h
  | prohibited => exact token (by decide) rfl h

theorem phrase (s : String) (h : LexesTo false rest ts) :
    LexesTo afterColon ((phraseText s).toList ++ rest) (.phrase s :: ts) := by
  have hread := readQuoted_escape '"' (fun c => c = '\\' || c = '"') (by decide) (by decide)
    (by decide) s.toList rest
  have hscan : scan afterColon '"'
      (Text.escape (fun c => c = '\\' || c = '"') s.toList ++ '"' :: rest) =
      .ok (.phrase s, rest) := by
    show scanPhrase _ = _
    simp only [scanPhrase, hread, String.ofList_toList]
  have hchars : (phraseText s).toList ++ rest =
      '"' :: (Text.escape (fun c => c = '\\' || c = '"') s.toList ++ '"' :: rest) := by
    simp [phraseText, Text.quote]
  rw [hchars]
  exact token (by decide) hscan h

end LexesTo
end SearchQuery
