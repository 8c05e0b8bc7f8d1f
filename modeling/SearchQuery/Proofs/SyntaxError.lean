import SearchQuery.Proofs.Acceptance
import SearchQuery.Proofs.Continuation
import SearchQuery.Proofs.Writing

/-!
# SearchQuery.Proofs.SyntaxError

Where a syntax error is reported.

The builder takes tokens one by one and refuses one only if no query goes on with it. Whatever it has
taken can still become a query: the clause that has been started is completed, and the groups that are
open are closed. So an error points at the first token that is wrong, and an error at the end of the
text only says that something is missing.

* `Builder.completion_finishes` — any builder can be brought to an end.
* `Parser.run_stops`            — the tokens before an error were taken, and the one it names was not.
* `lexesTo_before`              — the text before a token has the tokens before it.
* `syntax_error_first`          — what the two errors say about a text.
-/

namespace SearchQuery

/-! ## Completing what has been read -/

/-- What completes a range of which this bound has been read. -/
def Slot.completion : Slot → List Token
  | .lower _ => [.to, .term "x", .closeRange true]
  | .upper _ _ => [.closeRange true]
  | .only _ => []

/-- What completes the clause that has been started. -/
def Mode.completion : Mode → List Token
  | .sequence | .word _ _ => []
  | .operand _ | .target _ _ | .value _ | .signedValue _ _ => [.term "x"]
  | .bound _ slot | .signedBound _ slot _ => .term "x" :: slot.completion
  | .rangeTo _ _ _ => [.to, .term "x", .closeRange true]
  | .rangeEnd _ _ _ _ => [.closeRange true]

namespace Builder

/-- The clause that has been started, then the groups from the inside out. -/
def completion (b : Builder) : List Token :=
  b.mode.completion ++ List.replicate b.opened.length .closeParen

theorem empty_not_mem_completion (b : Builder) : Token.term "" ∉ b.completion := by
  have hslot : ∀ slot : Slot, Token.term "" ∉ slot.completion := by
    intro slot
    cases slot <;> simp [Slot.completion]
  have hmode : Token.term "" ∉ b.mode.completion := by
    cases b.mode with
    | bound m slot => simp [Mode.completion, hslot]
    | signedBound m slot o => simp [Mode.completion, hslot]
    | _ => simp [Mode.completion]
  simp [completion, hmode]

/-- After the tokens `ts` no clause is left that has only been started, and the groups `opened` are
open. -/
def Completes (b : Builder) (ts : List Token) (opened : List OpenGroup) : Prop :=
  ∃ b', b.steps ts = some b' ∧ b'.settle.mode = .sequence ∧ b'.settle.opened = opened

theorem setBound_completes (b : Builder) (m : Marks) (slot : Slot) (bound : Option String) :
    (b.setBound m slot bound).Completes slot.completion b.opened := by
  cases slot with
  | lower i => exact ⟨_, rfl, rfl, rfl⟩
  | upper i min => exact ⟨_, rfl, rfl, rfl⟩
  | only c => exact ⟨_, rfl, rfl, rfl⟩

theorem mode_completes (b : Builder) : b.Completes b.mode.completion b.opened := by
  obtain ⟨mode, current, opened⟩ := b
  cases mode with
  | bound m slot => exact setBound_completes ⟨.bound m slot, current, opened⟩ m slot (some "x")
  | signedBound m slot o =>
    exact setBound_completes ⟨.signedBound m slot o, current, opened⟩ m slot (some (o.text ++ "x"))
  | _ => exact ⟨_, rfl, rfl, rfl⟩

theorem closeParens_finish {b : Builder} (h : b.settle.mode = .sequence) :
    ∃ b' cs, b.steps (List.replicate b.settle.opened.length .closeParen) = some b' ∧
      b'.finish = some cs := by
  generalize hgroups : b.settle.opened = groups
  induction groups generalizing b with
  | nil =>
    refine ⟨b, b.settle.current.clauses, rfl, ?_⟩
    simp only [finish, h, hgroups]
  | cons g gs ih =>
    have hclose : ∃ b₁, b.step .closeParen = some b₁ ∧ b₁.mode = .sequence ∧ b₁.opened = gs := by
      rw [step_settle h (by simp)]
      simp only [step, h, stepSequence, closeGroup, hgroups]
      exact ⟨_, rfl, rfl, rfl⟩
    obtain ⟨b₁, hstep, hmode, hopened⟩ := hclose
    have hsettle : b₁.settle = b₁ := by simp only [settle, hmode]
    obtain ⟨b', cs, hsteps, hfinish⟩ := ih (b := b₁) (by rw [hsettle, hmode])
      (by rw [hsettle, hopened])
    refine ⟨b', cs, ?_, hfinish⟩
    rw [List.length_cons, List.replicate_succ, steps_cons_of hstep]
    exact hsteps

/-- Whatever has been read can become a query. -/
theorem completion_finishes (b : Builder) :
    ∃ b' cs, b.steps b.completion = some b' ∧ b'.finish = some cs := by
  obtain ⟨b₁, hsteps, hmode, hopened⟩ := b.mode_completes
  obtain ⟨b', cs, hclose, hfinish⟩ := closeParens_finish hmode
  refine ⟨b', cs, ?_, hfinish⟩
  rw [completion, steps_append_of hsteps, ← hopened]
  exact hclose

end Builder

/-! ## The token that is refused -/

namespace Parser

theorem reject_error (p : Parser) (b : Builder) (position : Nat) (t : Token) :
    (p.reject b position t).1 = .error (.unexpectedToken (b.expected (some t)) t position) := by
  unfold reject
  split
  · rename_i hexpected
    rw [hexpected]
  · rfl

theorem conclude_cases (p : Parser) (b : Builder) :
    (∃ cs, (p.conclude b).1 = .ok cs) ∨
      (p.conclude b).1 = .error (.unexpectedEnd (b.expected none)) := by
  unfold conclude
  cases b.finish with
  | some cs => exact .inl ⟨cs, rfl⟩
  | none => exact .inr rfl

/-- The lexemes `xs` begin with the tokens `ts`, which the builder `b` takes and is `b'` then. What is
left of the lexemes is `rest`. -/
structure Takes (b : Builder) (xs : List Lexeme) (ts : List Token) (b' : Builder)
    (rest : List Lexeme) : Prop where
  lexemes : ∃ before, xs = before ++ rest ∧ before.mapM Lexeme.token = .ok ts
  steps : b.steps ts = some b'

theorem takes_nil (b : Builder) (xs : List Lexeme) : Takes b xs [] b xs :=
  ⟨⟨[], rfl, rfl⟩, rfl⟩

theorem Takes.cons {b b₁ b' : Builder} {xs rest : List Lexeme} {ts : List Token} {t : Token}
    (h : Takes b₁ xs ts b' rest) (hstep : b.step t = some b₁) (position : Nat) :
    Takes b (⟨position, .ok t⟩ :: xs) (t :: ts) b' rest := by
  obtain ⟨⟨before, rfl, hbefore⟩, hsteps⟩ := h
  refine ⟨⟨⟨position, .ok t⟩ :: before, rfl, ?_⟩, ?_⟩
  · rw [List.mapM_cons, hbefore]
    rfl
  · rw [Builder.steps_cons_of hstep]
    exact hsteps

/-- How a syntax error comes about: a token that is refused, or the end, after tokens that were taken. -/
def Stops (b : Builder) (xs : List Lexeme) : ParseError → Prop
  | .unexpectedToken _ found position => ∃ ts b' after,
      Takes b xs ts b' (⟨position, .ok found⟩ :: after) ∧ b'.step found = none
  | .unexpectedEnd _ => ∃ ts b', Takes b xs ts b' []
  | _ => True

theorem Stops.cons {b b₁ : Builder} {xs : List Lexeme} {t : Token} {e : ParseError}
    (h : Stops b₁ xs e) (hstep : b.step t = some b₁) (position : Nat) :
    Stops b (⟨position, .ok t⟩ :: xs) e := by
  cases e with
  | unexpectedToken expected found place =>
    obtain ⟨ts, b', after, htakes, hrefused⟩ := h
    exact ⟨t :: ts, b', after, htakes.cons hstep position, hrefused⟩
  | unexpectedEnd expected =>
    obtain ⟨ts, b', htakes⟩ := h
    exact ⟨t :: ts, b', htakes.cons hstep position⟩
  | lex _ => trivial
  | tooDeep _ => trivial

theorem conclude_stops {p : Parser} {b : Builder} {e : ParseError}
    (h : (p.conclude b).1 = .error e) : Stops b [] e := by
  rcases p.conclude_cases b with ⟨cs, hok⟩ | herror
  · rw [hok] at h
    cases h
  · rw [herror] at h
    cases h
    exact ⟨[], b, takes_nil b []⟩

theorem run_stops {p : Parser} {b : Builder} {position : Nat} {t : Token} {pending : List Lexeme}
    {e : ParseError} (h : (p.run b position t pending).1 = .error e) :
    Stops b (⟨position, .ok t⟩ :: pending) e := by
  induction pending generalizing b position t with
  | nil =>
    rw [run] at h
    cases hs : b.step t with
    | none =>
      simp only [hs, reject_error] at h
      cases h
      exact ⟨[], b, [], takes_nil b _, hs⟩
    | some b₁ =>
      simp only [hs] at h
      split at h
      · cases h
        trivial
      · exact (conclude_stops h).cons hs position
  | cons x rest ih =>
    rw [run] at h
    cases hs : b.step t with
    | none =>
      simp only [hs, reject_error] at h
      cases h
      exact ⟨[], b, x :: rest, takes_nil b _, hs⟩
    | some b₁ =>
      obtain ⟨start, token⟩ := x
      cases token with
      | error err =>
        simp only [hs] at h
        cases h
        trivial
      | ok t' =>
        simp only [hs] at h
        split at h
        · cases h
          trivial
        · exact (ih h).cons hs position

theorem sequence_stops {xs : List Lexeme} {p : Parser} {m : Nat} {e : ParseError}
    (hp : ofLexemes xs = .ok p) (h : ({ p with maxDepth := m }.sequence).1 = .error e) :
    Stops {} xs e := by
  cases xs with
  | nil =>
    obtain rfl := Except.ok.inj hp
    rw [sequence_end] at h
    split at h
    · cases h
      trivial
    · exact conclude_stops h
  | cons x pending =>
    obtain ⟨start, token⟩ := x
    cases token with
    | error err => cases hp
    | ok t =>
      obtain rfl := Except.ok.inj hp
      rw [sequence_token] at h
      split at h
      · cases h
        trivial
      · exact run_stops h

end Parser

theorem parseWithin_stops {m : Nat} {text : String} {e : ParseError}
    (h : parseWithin m text = .error e) : Parser.Stops {} (Lexer.ofText text).lexemes e := by
  unfold parseWithin Parser.ofText at h
  cases hp : Parser.ofLexemes (Lexer.ofText text).lexemes with
  | error err =>
    rw [hp] at h
    cases h
    trivial
  | ok p =>
    rw [hp] at h
    dsimp only at h
    rw [Parser.parse_eq] at h
    cases hs : ({ p with maxDepth := m }.sequence).1 with
    | error err =>
      rw [hs] at h
      cases h
      exact Parser.sequence_stops hp hs
    | ok cs =>
      rw [hs] at h
      dsimp only at h
      split at h
      · cases h
        trivial
      · cases h

/-! ## The text before it -/

/-- The text before a lexeme is read as the tokens before it. -/
theorem lexesTo_before {before after : List Lexeme} {x : Lexeme} {l : Lexer} {ts : List Token}
    (h : l.lexemes = before ++ x :: after) (hts : before.mapM Lexeme.token = .ok ts) :
    ∃ pre tail, l.rest = pre ++ tail ∧ x.start = l.offset + pre.length ∧
      LexesTo l.afterColon pre ts := by
  induction before generalizing l ts with
  | nil =>
    obtain rfl : ts = [] := (Except.ok.inj hts).symm
    obtain ⟨l', hnext, -⟩ := Lexer.next_of_lexemes h
    obtain ⟨blanks, span, hpasses⟩ := l.next_passes
    rw [hnext] at hpasses
    refine ⟨blanks, span ++ l'.rest, ?_, hpasses.start x rfl, ?_⟩
    · rw [← List.append_assoc]
      exact hpasses.rest
    · have hblanks : LexesTo l.afterColon (blanks ++ []) [] :=
        LexesTo.blanks hpasses.blank LexesTo.nil
      rwa [List.append_nil] at hblanks
  | cons y before ih =>
    obtain ⟨t, us, hy, hus, rfl⟩ := mapM_token_cons hts
    obtain ⟨l', hnext, hrest⟩ := Lexer.next_of_lexemes h
    obtain ⟨pre, tail, hl', hstart, hlexes⟩ := ih hrest hus
    have hcall := l.next_call
    rw [hnext] at hcall
    cases hcall with
    | error _ _ _ _ => cases hy
    | @token blanks cs rest c u hsplit hblank hc hscan =>
      obtain rfl : u = t := Except.ok.inj hy
      obtain rfl : rest = pre ++ tail := hl'
      obtain ⟨span, rfl, hspan⟩ := scan_span hc hscan
      refine ⟨blanks ++ c :: (span ++ pre), tail, ?_, ?_, ?_⟩
      · simp [hsplit]
      · simp only [List.length_append, List.length_cons] at hstart ⊢
        omega
      · -- the token ends before what is left of its rest as it did before all of it
        have htoken := hspan pre (endsAlike_front pre tail)
        exact LexesTo.blanks hblank (LexesTo.token hc htoken hlexes)

theorem tokenize_before {text : String} {before after : List Lexeme} {x : Lexeme}
    {ts : List Token} (h : (Lexer.ofText text).lexemes = before ++ x :: after)
    (hts : before.mapM Lexeme.token = .ok ts) :
    tokenize (String.ofList (text.toList.take x.start)) = .ok ts := by
  obtain ⟨pre, tail, htext, hstart, hlexes⟩ := lexesTo_before h hts
  have htake : text.toList.take x.start = pre := by
    rw [hstart, show text.toList = pre ++ tail from htext]
    simp [Lexer.ofText]
  refine LexesTo.tokenize ?_
  rw [htake, String.toList_ofList]
  exact hlexes

/-! ## What an error says -/

/-- A blank and some text after it make a query of a text, if the limit is not too low. -/
def Completable (text : String) : Prop :=
  ∃ ending limit, ∀ m, limit ≤ m → ∃ root, parseWithin m (text ++ " " ++ ending) = .ok root

theorem completable_of_steps {text : String} {ts : List Token} {b : Builder}
    (hts : tokenize text = .ok ts) (hsteps : Builder.steps {} ts = some b) : Completable text := by
  obtain ⟨b', cs, hcompletion, hfinish⟩ := b.completion_finishes
  have hall : Builder.steps {} (ts ++ b.completion) = some b' := by
    rw [Builder.steps_append_of hsteps]
    exact hcompletion
  obtain ⟨q, hq, -⟩ := Builder.finish_iff.1 ⟨b', hall, hfinish⟩
  have hspell := (lexesTo_spell b.empty_not_mem_completion).tokenize
  have htext := tokenize_side_by_side hts hspell
  rw [← hq] at htext
  exact ⟨spell b.completion, q.root.depth, fun m hm =>
    ⟨q.root, parseWithin_ok_iff.2 ⟨q, htext, rfl, hm⟩⟩⟩

/-- Tokens that were taken up to one that is refused begin no query. -/
theorem not_parseWithin_of_refused {ts more : List Token} {t : Token} {b : Builder}
    (hsteps : Builder.steps {} ts = some b) (hrefused : b.step t = none) {text : String}
    (htext : tokenize text = .ok (ts ++ t :: more)) (m : Nat) (root : Group) :
    parseWithin m text ≠ .ok root := by
  intro h
  obtain ⟨q, hq, -, -⟩ := parseWithin_ok_iff.1 h
  obtain ⟨b', hb', -⟩ := Builder.finish_iff.2 ⟨q, rfl, rfl⟩
  rw [htext] at hq
  rw [← Except.ok.inj hq, Builder.steps_append_of hsteps, Builder.steps, hrefused] at hb'
  cases hb'

/-- A token that is reported as unexpected is one that the text has at that place. No text that begins
with the tokens up to it is a query, under any limit, and the text before it can become one. Where the
end is unexpected there is no error in the tokens, and the text itself can become a query. -/
theorem syntax_error_first (maxDepth : Nat) (text : String) :
    (∀ expected found position,
      parseWithin maxDepth text = .error (.unexpectedToken expected found position) →
      ∃ before after ts,
        (Lexer.ofText text).lexemes = before ++ ⟨position, .ok found⟩ :: after ∧
        before.mapM Lexeme.token = .ok ts ∧
        (∀ other more, tokenize other = .ok (ts ++ found :: more) →
          ∀ m root, parseWithin m other ≠ .ok root) ∧
        Completable (String.ofList (text.toList.take position))) ∧
    ∀ expected, parseWithin maxDepth text = .error (.unexpectedEnd expected) →
      (∃ ts, tokenize text = .ok ts) ∧ Completable text := by
  constructor
  · intro expected found position h
    obtain ⟨ts, b, after, ⟨⟨before, hlexemes, hts⟩, hsteps⟩, hrefused⟩ := parseWithin_stops h
    refine ⟨before, after, ts, hlexemes, hts, ?_, ?_⟩
    · intro other more hother m root
      exact not_parseWithin_of_refused hsteps hrefused hother m root
    · have hbefore := tokenize_before hlexemes hts
      exact completable_of_steps hbefore hsteps
  · intro expected h
    obtain ⟨ts, b, ⟨before, hlexemes, hbefore⟩, hsteps⟩ := parseWithin_stops h
    have hts : tokenize text = .ok ts := by
      rw [List.append_nil] at hlexemes
      rw [tokenize, hlexemes]
      exact hbefore
    exact ⟨⟨ts, hts⟩, completable_of_steps hts hsteps⟩

/-- A star cannot have a sign. Up to the sign there are an open group, an open range and half a bound,
and the text can go on. So can one that ends after a negation. -/
theorem syntax_error_first_signed_star :
    parseWithin 64 "a:(b [-* TO 5]" =
        .error (.unexpectedToken .signedRangeBound (.term "*") 7) ∧
      Completable "a:(b [-" ∧
      parseWithin 64 "a OR NOT" = .error (.unexpectedEnd .clause) ∧ Completable "a OR NOT" := by
  have hstar : parseWithin 64 "a:(b [-* TO 5]" =
      .error (.unexpectedToken .signedRangeBound (.term "*") 7) := by
    decide +kernel
  have hnot : parseWithin 64 "a OR NOT" = .error (.unexpectedEnd .clause) := by decide +kernel
  obtain ⟨-, -, -, -, -, -, hbefore⟩ := (syntax_error_first 64 "a:(b [-* TO 5]").1 _ _ _ hstar
  have htake : String.ofList ("a:(b [-* TO 5]".toList.take 7) = "a:(b [-" := by decide +kernel
  rw [htake] at hbefore
  exact ⟨hstar, hbefore, hnot, ((syntax_error_first 64 "a OR NOT").2 _ hnot).2⟩

end SearchQuery
