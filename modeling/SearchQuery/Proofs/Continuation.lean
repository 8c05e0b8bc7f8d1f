import Mathlib.Data.List.TakeWhile
import SearchQuery.Proofs.Grammar
import SearchQuery.Proofs.Spelling

/-!
# SearchQuery.Proofs.Continuation

What is read of a text when another text follows it.

A token that was read up to the end of a text could go on in what follows. It does not if that begins
with a boundary, such as a blank or a parenthesis: then every token stays the same, and the text after
it is read on its own. This is said of one token first, then of the lexer, then of whole texts.

* `scan_followed`          — one token keeps its characters.
* `lexesTo_followed`       — all tokens of a text, then those of what follows.
* `tokenize_side_by_side`  — two texts with a blank between them.
* `tokenize_parens`        — a text in parentheses.
* `QueryForm.append`       — the clauses of one query after those of another.
-/

namespace SearchQuery

/-! ## One token -/

/-- A token is the same when something follows the text that cannot go on with it. -/
theorem scan_followed {afterColon : Bool} {c : Char} {cs rest suffix : List Char} {t : Token}
    (hc : Text.isBlank c = false) (h : scan afterColon c cs = .ok (t, rest))
    (hend : EndsWord suffix) :
    scan afterColon c (cs ++ suffix) = .ok (t, rest ++ suffix) := by
  obtain ⟨span, rfl, hspan⟩ := scan_span hc h
  rw [List.append_assoc]
  exact hspan _ (endsAlike_append rest hend)

/-! ## All tokens -/

/-- Blanks in front are passed over. Only a colon that stands directly before them is forgotten. -/
theorem LexesTo.blanks {afterColon : Bool} {bs cs : List Char} {ts : List Token}
    (hbs : ∀ c ∈ bs, Text.isBlank c = true) (h : LexesTo (afterColon && bs.isEmpty) cs ts) :
    LexesTo afterColon (bs ++ cs) ts := by
  induction bs generalizing afterColon with
  | nil => simpa using h
  | cons b bs ih =>
    refine LexesTo.blank (hbs b List.mem_cons_self) (ih ?_ ?_)
    · intro c hc
      exact hbs c (List.mem_cons_of_mem b hc)
    · simpa using h

/-- The tokens of a text are read as before and then those of what follows. The place of the text does
not matter, so with nothing after it this says that its tokens do not depend on the offset. -/
theorem lexesTo_followed {l : Lexer} {suffix : List Char} {ts us : List Token}
    (hts : l.lexemes.mapM Lexeme.token = .ok ts) (hend : EndsWord suffix)
    (hus : ∀ afterColon, LexesTo afterColon suffix us) :
    LexesTo l.afterColon (l.rest ++ suffix) (ts ++ us) := by
  fun_induction Lexer.lexemes l generalizing ts with
  | case1 l l' hnext =>
    obtain rfl : ts = [] := (Except.ok.inj hts).symm
    have hcall := l.next_call
    rw [hnext] at hcall
    cases hcall with
    | done hblank => exact LexesTo.blanks hblank (hus _)
  | case2 l x l' hnext ih =>
    obtain ⟨t, ts, hx, hrest, rfl⟩ := mapM_token_cons hts
    have hcall := l.next_call
    rw [hnext] at hcall
    cases hcall with
    | error _ _ _ _ => cases hx
    | @token blanks cs rest c u hsplit hblank hc hscan =>
      obtain rfl : u = t := Except.ok.inj hx
      have htoken := LexesTo.token hc (scan_followed hc hscan hend) (ih hrest)
      rw [hsplit, List.append_assoc]
      exact LexesTo.blanks hblank htoken

theorem lexesTo_of_lexemes {l : Lexer} {ts : List Token}
    (h : l.lexemes.mapM Lexeme.token = .ok ts) : LexesTo l.afterColon l.rest ts := by
  have hself := lexesTo_followed h endsWord_nil fun _ => LexesTo.nil
  simpa using hself

theorem lexesTo_of_tokenize {text : String} {ts : List Token} (h : tokenize text = .ok ts) :
    LexesTo false text.toList ts :=
  lexesTo_of_lexemes h

/-! ## Whole texts -/

/-- Two texts with a blank between them are read one after the other. -/
theorem tokenize_side_by_side {first second : String} {ts us : List Token}
    (hts : tokenize first = .ok ts) (hus : tokenize second = .ok us) :
    tokenize (first ++ " " ++ second) = .ok (ts ++ us) := by
  have hblank : ∀ afterColon, LexesTo afterColon (' ' :: second.toList) us :=
    fun _ => LexesTo.blank (by decide) (lexesTo_of_tokenize hus)
  have hboth := lexesTo_followed hts (endsWord_cons second.toList (by decide)) hblank
  refine LexesTo.tokenize ?_
  simpa [Lexer.ofText] using hboth

theorem tokenize_parens {text : String} {ts : List Token} (hts : tokenize text = .ok ts) :
    tokenize ("(" ++ text ++ ")") = .ok (.openParen :: (ts ++ [.closeParen])) := by
  have hclose : ∀ afterColon, LexesTo afterColon [')'] [.closeParen] :=
    fun _ => LexesTo.token (by decide) rfl LexesTo.nil
  have hinner := lexesTo_followed hts (endsWord_cons [] (by decide)) hclose
  have hopen : LexesTo false ('(' :: (text.toList ++ [')'])) (.openParen :: (ts ++ [.closeParen])) :=
    LexesTo.token (by decide) rfl hinner
  refine LexesTo.tokenize ?_
  simpa using hopen

/-! ## Queries -/

namespace QueryForm

def append : QueryForm → QueryForm → QueryForm
  | .nil, q => q
  | .cons first rest, q => .cons first (rest.append q)

theorem tokens_append (p q : QueryForm) : (p.append q).tokens = p.tokens ++ q.tokens := by
  fun_induction append p q with
  | case1 q => simp [QueryForm.tokens]
  | case2 o p q ih => simp [QueryForm.tokens, ih]

theorem clauses_append (p q : QueryForm) : (p.append q).clauses = p.clauses ++ q.clauses := by
  fun_induction append p q with
  | case1 q => simp [QueryForm.clauses]
  | case2 o p q ih => simp [QueryForm.clauses, ih]

end QueryForm
end SearchQuery
