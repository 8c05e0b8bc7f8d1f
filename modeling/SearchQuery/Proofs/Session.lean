import SearchQuery.Proofs.Acceptance
import SearchQuery.Proofs.Span

/-!
# SearchQuery.Proofs.Session

A parser that is asked again and again, whatever came out before.

A `Parser` has all lexemes of its text from the start, and takes the number of open groups from the
tree that it builds. A `Reader` is the same machine one level further down: it asks the lexer for one
token at a time, and the number of open groups is a counter of its own, which goes up where a group is
entered and down where one is left. Going down from zero would be an underflow. An error ends a call
wherever it stands, and the counter stays as it is.

* `Reader.step`         — what is done about one token.
* `Reader.measure_lt`   — why a call comes to an end.
* `Builder.step_shifts` — which tokens change the number of open groups.
* `Reader.step_follows` — one step never underflows, and agrees with the parser.
* `Reader.run_follows`, `Reader.parse_follows` — the same for a whole call.
* `session_safe`        — any number of calls, with changes of the limit between them.
-/

namespace SearchQuery

/-! ## Readers -/

structure Reader where
  lexer : Lexer
  /-- The token to be read next and its offset, or the end of the text. -/
  current : Option (Nat × Token)
  depth : Nat := 0
  maxDepth : Nat := defaultMaxDepth

namespace Reader

/-- What one step comes to. -/
inductive Outcome where
  | next (r : Reader) (b : Builder)
  | done (answer : Except ParseError (List Clause)) (r : Reader)
  /-- The counter is zero and should go down. -/
  | underflow

/-- Asks the lexer for a token. At an error the current one stays. -/
def advance (r : Reader) : Option LexError × Reader :=
  match r.lexer.next with
  | (none, lexer) => (none, { r with lexer, current := none })
  | (some ⟨start, .ok t⟩, lexer) => (none, { r with lexer, current := some (start, t) })
  | (some ⟨_, .error e⟩, lexer) => (some e, { r with lexer })

def ofText (text : String) : Except LexError Reader :=
  match advance { lexer := Lexer.ofText text, current := none } with
  | (none, r) => .ok r
  | (some e, _) => .error e

/-- Lets go of the current token, if it is one that is not kept until the next one is there. -/
def release (r : Reader) (t : Token) : Reader :=
  { r with current := if t.isReleased then none else r.current }

@[simp] theorem release_lexer (r : Reader) (t : Token) : (r.release t).lexer = r.lexer := rfl

def enter (r : Reader) : Reader :=
  { r with depth := r.depth + 1 }

/-- Counts a group as left and goes on. -/
def leave (r : Reader) (goOn : Reader → Outcome) : Outcome :=
  match r.depth with
  | 0 => .underflow
  | n + 1 => goOn { r with depth := n }

/-- Asks the lexer for a token and goes on, unless it gives an error. -/
def advancing (r : Reader) (goOn : Reader → Outcome) : Outcome :=
  match r.advance with
  | (some e, r') => .done (.error (.lex e)) r'
  | (none, r') => goOn r'

/-- The end of the text. The lexer is asked once more when the query is complete. -/
def conclude (r : Reader) (b : Builder) : Outcome :=
  match b.finish with
  | some clauses => r.leave fun r => r.advancing (.done (.ok clauses))
  | none => .done (.error (.unexpectedEnd (b.expected none))) r

/-- A token that does not fit. The query counts as left before the end of the text is looked for. -/
def reject (r : Reader) (b : Builder) (position : Nat) (t : Token) : Outcome :=
  match b.expected (some t) with
  | .endOfText => r.leave (.done (.error (.unexpectedToken .endOfText t position)))
  | expected => .done (.error (.unexpectedToken expected t position)) r

/-- Counts the groups after the token `t`, which made the builder `b`. -/
def count (r : Reader) (b : Builder) (t : Token) : Outcome :=
  match t with
  | .openParen =>
    if r.maxDepth < r.depth + 1 then .done (.error (.tooDeep r.maxDepth)) r.enter
    else .next r.enter b
  | .closeParen => r.leave fun r => .next r b
  | _ => .next r b

def step (r : Reader) (b : Builder) : Outcome :=
  match r.current with
  | none => r.conclude b
  | some (position, t) =>
    match b.step t with
    | none => r.reject b position t
    | some b' => (r.release t).advancing fun r => r.count b' t

/-! ## Termination -/

/-- What asking for a token does. -/
inductive Asked (r : Reader) : Option LexError × Reader → Prop where
  | ended {l : Lexer} (hlexemes : r.lexer.lexemes = []) (hrest : l.rest = [])
      (hoffset : r.lexer.offset ≤ l.offset) : Asked r (none, { r with lexer := l, current := none })
  | token {l : Lexer} {start : Nat} {t : Token}
      (hlexemes : r.lexer.lexemes = ⟨start, .ok t⟩ :: l.lexemes)
      (hlength : l.rest.length < r.lexer.rest.length) (hoffset : r.lexer.offset ≤ l.offset) :
      Asked r (none, { r with lexer := l, current := some (start, t) })
  | failed {l : Lexer} {start : Nat} {e : LexError}
      (hlexemes : r.lexer.lexemes = ⟨start, .error e⟩ :: l.lexemes) (hrest : l.rest = [])
      (hoffset : r.lexer.offset ≤ l.offset) : Asked r (some e, { r with lexer := l })

theorem advance_asked (r : Reader) : r.Asked r.advance := by
  obtain ⟨blanks, span, hpasses⟩ := r.lexer.next_passes
  unfold advance
  rcases hnext : r.lexer.next with ⟨_ | ⟨start, e | t⟩, l⟩ <;> rw [hnext] at hpasses
  · exact .ended (Lexer.lexemes_nil hnext) (hpasses.ended rfl) (by rw [hpasses.offset]; omega)
  · exact .failed (Lexer.lexemes_cons hnext) (Lexer.next_error hnext).1
      (by rw [hpasses.offset]; omega)
  · exact .token (Lexer.lexemes_cons hnext) (Lexer.next_length_lt hnext)
      (by rw [hpasses.offset]; omega)

/-- The characters that are left, and the token that is held. -/
def measure (r : Reader) : Nat :=
  r.lexer.rest.length + (if r.current.isSome then 1 else 0)

theorem leave_next {r r' : Reader} {b' : Builder} {goOn : Reader → Outcome}
    (h : r.leave goOn = .next r' b') : ∃ n, goOn { r with depth := n } = .next r' b' := by
  unfold leave at h
  split at h
  · cases h
  · exact ⟨_, h⟩

theorem count_measure {r r' : Reader} {b b' : Builder} {t : Token}
    (h : r.count b t = .next r' b') : r'.measure = r.measure := by
  unfold count at h
  split at h
  · split at h
    · cases h
    · cases h; rfl
  · obtain ⟨n, hnext⟩ := leave_next h
    cases hnext
    rfl
  · cases h; rfl

theorem conclude_not_next {r r' : Reader} {b b' : Builder} : r.conclude b ≠ .next r' b' := by
  intro h
  unfold conclude at h
  split at h
  · obtain ⟨n, hnext⟩ := leave_next h
    unfold advancing at hnext
    split at hnext <;> cases hnext
  · cases h

theorem reject_not_next {r r' : Reader} {b b' : Builder} {position : Nat} {t : Token} :
    r.reject b position t ≠ .next r' b' := by
  intro h
  unfold reject at h
  split at h
  · obtain ⟨n, hnext⟩ := leave_next h
    cases hnext
  · cases h

/-- A step that does not end the call has used up a token. -/
theorem measure_lt {r r' : Reader} {b b' : Builder} (h : r.step b = .next r' b') :
    r'.measure < r.measure := by
  unfold step at h
  split at h
  · exact absurd h conclude_not_next
  · rename_i position t hcurrent
    split at h
    · exact absurd h reject_not_next
    · have hasked := (r.release t).advance_asked
      unfold advancing at h
      generalize (r.release t).advance = asked at hasked h
      cases hasked with
      | failed => cases h
      | ended hlexemes hrest =>
        rw [count_measure h, measure, measure, hcurrent, hrest]
        simp
      | token hlexemes hlength =>
        rw [release_lexer] at hlength
        rw [count_measure h, measure, measure, hcurrent]
        simpa using hlength

/-- Reads token after token. `none` is an underflow of the counter. -/
def run (r : Reader) (b : Builder) : Option (Except ParseError (List Clause) × Reader) :=
  match _h : r.step b with
  | .underflow => none
  | .done answer r' => some (answer, r')
  | .next r' b' => r'.run b'
termination_by r.measure
decreasing_by exact measure_lt _h

/-- At most `n` steps further. -/
def Outcome.steps : Nat → Outcome → Outcome
  | n + 1, .next r b => (r.step b).steps n
  | _, o => o

theorem Outcome.steps_done (n : Nat) (answer : Except ParseError (List Clause)) (r : Reader) :
    (Outcome.done answer r).steps n = .done answer r := by
  cases n <;> rfl

/-- A run is over when it has gone on for more steps than its measure. -/
theorem steps_of_run {r r' : Reader} {b : Builder} {answer : Except ParseError (List Clause)}
    {n : Nat} (h : r.run b = some (answer, r')) (hn : r.measure < n) :
    (Outcome.next r b).steps n = .done answer r' := by
  fun_induction run r b generalizing n with
  | case1 => cases h
  | case2 r b answer₁ r₁ hstep =>
    cases h
    obtain ⟨m, rfl⟩ := Nat.exists_eq_add_one_of_ne_zero (Nat.ne_of_gt (Nat.zero_lt_of_lt hn))
    rw [Outcome.steps, hstep, Outcome.steps_done]
  | case3 r b r₁ b₁ hstep ih =>
    obtain ⟨m, rfl⟩ := Nat.exists_eq_add_one_of_ne_zero (Nat.ne_of_gt (Nat.zero_lt_of_lt hn))
    have hlt := measure_lt hstep
    rw [Outcome.steps, hstep]
    exact ih h (by omega)

/-- Reads a query up to the end of the text. -/
def parse (r : Reader) : Option (Except ParseError Group × Reader) :=
  if r.maxDepth < r.depth + 1 then some (.error (.tooDeep r.maxDepth), r.enter)
  else
    match r.enter.run {} with
    | none => none
    | some (.error e, r') => some (.error e, r')
    | some (.ok clauses, r') =>
      let root := Group.ofSequence clauses
      if r.maxDepth < root.depth then some (.error (.tooDeep r.maxDepth), r')
      else some (.ok root, r')

end Reader

/-! ## The depth of a builder -/

namespace Builder

/-- Only parentheses change how many groups are open. -/
inductive Shifts (b b' : Builder) : Token → Prop where
  | opens (h : b'.depth = b.depth + 1) : Shifts b b' .openParen
  | closes (h : b.depth = b'.depth + 1) : Shifts b b' .closeParen
  | keeps {t : Token} (hopen : t ≠ .openParen) (hclose : t ≠ .closeParen)
      (h : b'.depth = b.depth) : Shifts b b' t

theorem closeGroup_depth {b b' : Builder} (h : b.closeGroup = some b') : b.depth = b'.depth + 1 := by
  unfold closeGroup at h
  split at h
  · cases h
  · rename_i g opened hopened
    cases h
    rw [depth, depth, hopened, List.length_cons]

theorem settle_depth (b : Builder) : b.settle.depth = b.depth := by
  unfold settle
  split <;> rfl

theorem setBound_depth (b : Builder) (m : Marks) (slot : Slot) (bound : Option String) :
    (b.setBound m slot bound).depth = b.depth := by
  cases slot <;> rfl

theorem stepValue_shifts {b b' : Builder} {m : Marks} {t : Token} (h : b.stepValue m t = some b') :
    Shifts b b' t := by
  cases t with
  | openParen => cases h; exact .opens rfl
  | _ => cases h <;> exact .keeps (by simp) (by simp) rfl

theorem stepOperand_shifts {b b' : Builder} {m : Marks} {t : Token}
    (h : b.stepOperand m t = some b') : Shifts b b' t := by
  rw [stepOperand.eq_def] at h
  split at h
  · cases h; exact .keeps (by simp) (by simp) rfl
  · cases h; exact .keeps (by simp) (by simp) rfl
  · cases h; exact .keeps (by simp) (by simp) rfl
  · exact stepValue_shifts h

theorem Shifts.of_depth_eq {b b₁ b' : Builder} {t : Token} (h : Shifts b₁ b' t)
    (hdepth : b₁.depth = b.depth) : Shifts b b' t := by
  cases h with
  | opens h => exact .opens (hdepth ▸ h)
  | closes h => exact .closes (hdepth ▸ h)
  | keeps hopen hclose h => exact .keeps hopen hclose (hdepth ▸ h)

theorem stepSequence_shifts {b b' : Builder} {t : Token} (h : b.stepSequence t = some b') :
    Shifts b b' t := by
  rw [stepSequence.eq_def] at h
  split at h
  · exact .closes (closeGroup_depth h)
  · rename_i op
    split at h
    · cases h
    · cases op <;> cases h <;> exact .keeps (by simp) (by simp) rfl
  · exact (stepOperand_shifts h).of_depth_eq rfl

theorem stepWord_shifts {b b' : Builder} {lead : Marks} {s : String} {t : Token}
    (h : b.stepWord lead s t = some b') : Shifts b b' t := by
  rw [stepWord.eq_def] at h
  split at h
  · split at h <;> cases h <;> exact .keeps (by simp) (by simp) rfl
  · exact (stepSequence_shifts h).of_depth_eq b.settle_depth

theorem stepBound_shifts {b b' : Builder} {m : Marks} {slot : Slot} {t : Token}
    (h : b.stepBound m slot t = some b') : Shifts b b' t := by
  cases t with
  | sign o => cases h; exact .keeps (by simp) (by simp) rfl
  | term s => cases h; exact .keeps (by simp) (by simp) (setBound_depth _ _ _ _)
  | phrase s => cases h; exact .keeps (by simp) (by simp) (setBound_depth _ _ _ _)
  | _ => cases h

theorem stepSignedBound_shifts {b b' : Builder} {m : Marks} {slot : Slot} {o : Occur} {t : Token}
    (h : b.stepSignedBound m slot o t = some b') : Shifts b b' t := by
  cases t with
  | term s =>
    simp only [stepSignedBound] at h
    split at h
    · cases h
    · cases h; exact .keeps (by simp) (by simp) (setBound_depth _ _ _ _)
  | _ => cases h

theorem stepSignedValue_shifts {b b' : Builder} {m : Marks} {inner : Occur} {t : Token}
    (h : b.stepSignedValue m inner t = some b') : Shifts b b' t := by
  rw [stepSignedValue.eq_def] at h
  split at h
  · cases h; exact .keeps (by simp) (by simp) rfl
  · cases h; exact .keeps (by simp) (by simp) rfl
  · exact stepValue_shifts h

theorem step_shifts {b b' : Builder} {t : Token} (h : b.step t = some b') : Shifts b b' t := by
  unfold step at h
  split at h
  case h_1 => exact stepSequence_shifts h
  case h_2 => exact stepOperand_shifts h
  case h_3 => exact stepWord_shifts h
  case h_4 => cases t <;> cases h <;> exact .keeps (by simp) (by simp) rfl
  case h_5 =>
    split at h
    · cases h; exact .keeps (by simp) (by simp) rfl
    · exact stepValue_shifts h
  case h_6 => exact stepSignedValue_shifts h
  case h_7 => exact stepBound_shifts h
  case h_8 => exact stepSignedBound_shifts h
  case h_9 => split at h <;> cases h; exact .keeps (by simp) (by simp) rfl
  case h_10 => split at h <;> cases h; exact .keeps (by simp) (by simp) rfl

/-- A query that is complete has no group open but itself. -/
theorem depth_of_finish {b : Builder} {cs : List Clause} (h : b.finish = some cs) : b.depth = 1 := by
  simp only [finish] at h
  split at h
  · rename_i hmode hopened
    rw [← b.settle_depth, depth, hopened, List.length_nil]
  · cases h

/-- A closing parenthesis is one too many when no group is open but the query itself. -/
theorem depth_of_endOfText {b : Builder} {t : Token} (h : b.step t = none)
    (hexpected : b.expected (some t) = .endOfText) : b.depth = 1 := by
  obtain ⟨hmode, rfl⟩ : b.settle.mode = .sequence ∧ t = .closeParen := by
    unfold expected at hexpected
    split at hexpected
    · rename_i hmode
      refine ⟨hmode, ?_⟩
      split at hexpected
      · cases hexpected
      · rename_i hfound
        exact Option.some.inj hfound
      · cases hexpected
    all_goals cases hexpected
  have hclose : b.settle.closeGroup = none := by
    cases hm : b.mode with
    | sequence => simpa only [step, hm, settle, stepSequence] using h
    | word lead s => simpa only [step, hm, stepWord, stepSequence] using h
    | _ => simp [settle, hm] at hmode
  rw [← b.settle_depth]
  unfold closeGroup at hclose
  split at hclose
  · rename_i hopened
    rw [depth, hopened, List.length_nil]
  · cases hclose

end Builder

/-! ## Parsers, token by token -/

namespace Parser

/-- Goes on after what `b` has read. -/
def resume (p : Parser) (b : Builder) : Except ParseError (List Clause) × Parser :=
  match p.current with
  | none => p.conclude b
  | some (position, t) => p.run b position t p.pending

theorem sequence_eq_resume (p : Parser) :
    p.sequence =
      if p.maxDepth < p.depth + 1 then p.fail {} (.tooDeep p.maxDepth) else p.resume {} :=
  rfl

/-- A run is told where it starts, so the place that is on record makes no difference. -/
theorem run_place (p : Parser) (current : Option (Nat × Token)) (pending rest : List Lexeme)
    (b : Builder) (position : Nat) (t : Token) :
    run { p with current, pending } b position t rest = p.run b position t rest := by
  induction rest generalizing b position t with
  | nil => rw [run.eq_def, run.eq_def p]
  | cons x rest ih =>
    rw [run.eq_def, run.eq_def p]
    simp only [ih]

/-- The parser `p'` is at the next token after that of `p`, or at the end. -/
inductive Ahead (p : Parser) : Parser → Prop where
  | ended (h : p.pending = []) : Ahead p { p with current := none, pending := [] }
  | token {start : Nat} {t : Token} {rest : List Lexeme} (h : p.pending = ⟨start, .ok t⟩ :: rest) :
      Ahead p { p with current := some (start, t), pending := rest }

variable {p : Parser} {b b' : Builder} {position : Nat} {t : Token}

theorem resume_reject (hcurrent : p.current = some (position, t)) (hstep : b.step t = none) :
    p.resume b = p.reject b position t := by
  obtain ⟨current, pending, depth, maxDepth⟩ := p
  obtain rfl : current = some (position, t) := hcurrent
  rw [resume]
  dsimp only
  rw [run.eq_def]
  simp only [hstep]

theorem resume_lex {start : Nat} {e : LexError} {rest : List Lexeme}
    (hcurrent : p.current = some (position, t)) (hstep : b.step t = some b')
    (hpending : p.pending = ⟨start, .error e⟩ :: rest) :
    p.resume b =
      fail { p with current := if t.isReleased then none else p.current, pending := rest } b
        (.lex e) := by
  simp only [resume, hcurrent, hpending]
  rw [run.eq_def]
  simp only [hstep]

theorem resume_ahead {p' : Parser} (hcurrent : p.current = some (position, t))
    (hstep : b.step t = some b') (hahead : p.Ahead p') :
    p.resume b =
      if p.maxDepth < p.depth + b'.depth then p'.fail b' (.tooDeep p.maxDepth)
      else p'.resume b' := by
  cases hahead with
  | ended h =>
    simp only [resume, hcurrent, h]
    rw [run.eq_def]
    simp only [hstep]
  | token h =>
    simp only [resume, hcurrent, h, run_place]
    rw [run.eq_def]
    simp only [hstep]

end Parser

/-! ## A reader against a parser -/

theorem Lexer.lexemes_of_rest {l : Lexer} (h : l.rest = []) : l.lexemes = [] :=
  lexemes_nil (by rw [next, h]; rfl)

namespace Reader

/-- The parser that is at the same place, when `base` groups are counted around the query. -/
def parserAt (r : Reader) (base : Nat) : Parser where
  current := r.current
  pending := r.lexer.lexemes
  depth := base
  maxDepth := r.maxDepth

def parser (r : Reader) : Parser :=
  r.parserAt r.depth

/-- Nothing is left of the text when there is no token. -/
def UsedUp (r : Reader) : Prop :=
  r.current = none → r.lexer.rest = []

/-- Where a reader is within a call that began when `base` groups were counted. -/
structure Stands (r : Reader) (b : Builder) (base : Nat) : Prop where
  depth : r.depth = base + b.depth
  limit : r.depth ≤ r.maxDepth
  used : r.UsedUp

theorem Stands.le {r : Reader} {b : Builder} {base : Nat} (h : r.Stands b base) : base ≤ r.depth := by
  rw [h.depth]
  exact Nat.le_add_right _ _

/-- Where a reader is after such a call. -/
structure Ends (base : Nat) (answer : Except ParseError (List Clause)) (r : Reader) : Prop where
  depth : base ≤ r.depth
  ok : ∀ cs, answer = .ok cs → r.depth = base ∧ r.current = none
  used : r.UsedUp

/-- No call goes back in the text or changes the limit. -/
structure Moves (r r' : Reader) : Prop where
  offset : r.lexer.offset ≤ r'.lexer.offset
  maxDepth : r'.maxDepth = r.maxDepth

theorem Moves.trans {r r₁ r' : Reader} (h : r.Moves r₁) (h' : r₁.Moves r') : r.Moves r' :=
  ⟨Nat.le_trans h.offset h'.offset, h'.maxDepth.trans h.maxDepth⟩

/-- What a step comes to is what the parser does from the same place. -/
def Outcome.Follows (r : Reader) (b : Builder) (base : Nat) : Outcome → Prop
  | .underflow => False
  | .done answer r' =>
    (r.parserAt base).resume b = (answer, r'.parser) ∧ r.Moves r' ∧ Ends base answer r'
  | .next r' b' =>
    (r.parserAt base).resume b = (r'.parserAt base).resume b' ∧ r.Moves r' ∧ r'.Stands b' base

theorem leave_succ {r : Reader} {n : Nat} (h : r.depth = n + 1) (goOn : Reader → Outcome) :
    r.leave goOn = goOn { r with depth := n } := by
  simp only [leave, h]

/-- At the end the lexer can be asked as often as one likes. -/
theorem advance_of_rest {r : Reader} (h : r.lexer.rest = []) :
    ∃ l, r.advance = (none, { r with lexer := l, current := none }) ∧ l.rest = [] ∧
      r.lexer.offset ≤ l.offset := by
  have hnone := Lexer.lexemes_of_rest h
  have hasked := r.advance_asked
  generalize r.advance = asked at hasked
  cases hasked with
  | ended hlexemes hrest hoffset => exact ⟨_, rfl, hrest, hoffset⟩
  | token hlexemes => rw [hnone] at hlexemes; cases hlexemes
  | failed hlexemes => rw [hnone] at hlexemes; cases hlexemes

variable {r r' : Reader} {b b' : Builder} {base position : Nat} {t : Token}

/-- An error leaves the counter as it is. -/
theorem fail_parserAt (h : r.depth = base + b.depth) (e : ParseError) :
    (r.parserAt base).fail b e = (.error e, r.parser) := by
  simp only [Parser.fail, parser, h, parserAt]

theorem ends_error {e : ParseError} (hdepth : base ≤ r.depth) (hused : r.UsedUp) :
    Ends base (.error e) r :=
  ⟨hdepth, fun _ h => (by cases h), hused⟩

theorem conclude_follows (h : r.Stands b base) (hcurrent : r.current = none) :
    (r.conclude b).Follows r b base := by
  have hrest := h.used hcurrent
  have hresume : (r.parserAt base).resume b = (r.parserAt base).conclude b := by
    simp only [Parser.resume, parserAt, hcurrent]
  unfold conclude
  unfold Parser.conclude at hresume
  cases hfinish : b.finish with
  | none =>
    rw [hfinish] at hresume
    exact ⟨hresume.trans (fail_parserAt h.depth _), ⟨Nat.le_refl _, rfl⟩, ends_error h.le h.used⟩
  | some clauses =>
    rw [hfinish] at hresume
    have hdepth : r.depth = base + 1 := by rw [h.depth, Builder.depth_of_finish hfinish]
    -- nothing is left of the text, so to ask once more gives the end again
    obtain ⟨l, hadvance, hl, hoffset⟩ := advance_of_rest (r := { r with depth := base }) hrest
    dsimp only
    rw [leave_succ hdepth, advancing, hadvance]
    refine ⟨hresume.trans ?_, ⟨hoffset, rfl⟩, Nat.le_refl _, fun _ _ => ⟨rfl, rfl⟩, fun _ => hl⟩
    simp only [parser, parserAt, hcurrent, Lexer.lexemes_of_rest hl, Lexer.lexemes_of_rest hrest]

theorem reject_follows (h : r.Stands b base) (hcurrent : r.current = some (position, t))
    (hstep : b.step t = none) : (r.reject b position t).Follows r b base := by
  have hresume := Parser.resume_reject (p := r.parserAt base) hcurrent hstep
  unfold reject
  unfold Parser.reject at hresume
  split
  · rename_i hexpected
    have hdepth : r.depth = base + 1 := by rw [h.depth, Builder.depth_of_endOfText hstep hexpected]
    rw [hexpected] at hresume
    rw [leave_succ hdepth]
    exact ⟨hresume, ⟨Nat.le_refl _, rfl⟩, ends_error (Nat.le_refl _) h.used⟩
  · split at hresume
    · contradiction
    · exact ⟨hresume.trans (fail_parserAt h.depth _), ⟨Nat.le_refl _, rfl⟩,
        ends_error h.le h.used⟩

/-- The reader `r'` is `r` with the next token. -/
structure Reaches (r r' : Reader) : Prop extends r.Moves r' where
  depth : r'.depth = r.depth
  ahead : ∀ base, (r.parserAt base).Ahead (r'.parserAt base)
  used : r'.UsedUp

theorem count_follows (h : r.Stands b base) (hcurrent : r.current = some (position, t))
    (hstep : b.step t = some b') (hreaches : r.Reaches r') :
    (r'.count b' t).Follows r b base := by
  obtain ⟨⟨hoffset, hmax⟩, hsame, hahead, hused⟩ := hreaches
  obtain ⟨hdepth, hlimit, -⟩ := h
  have hresume : (r.parserAt base).resume b =
      if r.maxDepth < base + b'.depth then (r'.parserAt base).fail b' (.tooDeep r.maxDepth)
      else (r'.parserAt base).resume b' :=
    Parser.resume_ahead hcurrent hstep (hahead base)
  unfold count
  cases Builder.step_shifts hstep with
  | opens hb =>
    have hcount : r'.depth + 1 = base + b'.depth := by omega
    dsimp only
    rw [hcount, hmax]
    split
    · rename_i hlt
      rw [if_pos hlt] at hresume
      have hle : base ≤ r'.enter.depth := by simp only [enter]; omega
      exact ⟨hresume.trans (fail_parserAt (r := r'.enter) hcount _), ⟨hoffset, hmax⟩,
        ends_error hle hused⟩
    · rename_i hle
      rw [if_neg hle] at hresume
      refine ⟨hresume, ⟨hoffset, hmax⟩, hcount, ?_, hused⟩
      simp only [enter]
      omega
  | closes hb =>
    -- the group that is left was open in `b`, so it was counted
    have hcount : r'.depth = base + b'.depth + 1 := by omega
    rw [if_neg (by omega)] at hresume
    dsimp only
    rw [leave_succ hcount]
    refine ⟨hresume, ⟨hoffset, hmax⟩, rfl, ?_, hused⟩
    dsimp only
    omega
  | keeps hopen hclose hb =>
    -- no more groups are open than before, when they kept to the limit
    rw [if_neg (by omega)] at hresume
    split
    · contradiction
    · contradiction
    · exact ⟨hresume, ⟨hoffset, hmax⟩, by omega, by omega, hused⟩

theorem step_follows (h : r.Stands b base) : (r.step b).Follows r b base := by
  unfold step
  split
  · rename_i hcurrent
    exact conclude_follows h hcurrent
  · rename_i position t hcurrent
    cases hstep : b.step t with
    | none => exact reject_follows h hcurrent hstep
    | some b' =>
      have hasked := (r.release t).advance_asked
      dsimp only [advancing]
      generalize (r.release t).advance = asked at hasked
      cases hasked with
      | @ended l hlexemes hrest hoffset =>
        refine count_follows h hcurrent hstep ⟨⟨hoffset, rfl⟩, rfl, fun base => ?_, fun _ => hrest⟩
        have hahead := Parser.Ahead.ended (p := r.parserAt base) hlexemes
        rwa [← Lexer.lexemes_of_rest hrest] at hahead
      | token hlexemes hlength hoffset =>
        exact count_follows h hcurrent hstep
          ⟨⟨hoffset, rfl⟩, rfl, fun base => .token hlexemes, fun hnone => (by cases hnone)⟩
      | failed hlexemes hrest hoffset =>
        have hresume := Parser.resume_lex (p := r.parserAt base) hcurrent hstep hlexemes
        exact ⟨hresume.trans (fail_parserAt (r := { r.release t with lexer := _ }) h.depth _),
          ⟨hoffset, rfl⟩, ends_error h.le fun _ => hrest⟩

theorem run_follows (h : r.Stands b base) :
    ∃ answer r', r.run b = some (answer, r') ∧
      (r.parserAt base).resume b = (answer, r'.parser) ∧ r.Moves r' ∧ Ends base answer r' := by
  fun_induction run r b with
  | case1 r b hstep =>
    have hfollows := step_follows h
    rw [hstep] at hfollows
    exact hfollows.elim
  | case2 r b answer r' hstep =>
    have hfollows := step_follows h
    rw [hstep] at hfollows
    exact ⟨answer, r', rfl, hfollows⟩
  | case3 r b r₁ b₁ hstep ih =>
    have hfollows := step_follows h
    rw [hstep] at hfollows
    obtain ⟨hresume, hmoves, hstands⟩ := hfollows
    obtain ⟨answer, r', hrun, hrest, hmoves', hends⟩ := ih hstands
    exact ⟨answer, r', hrun, hresume.trans hrest, hmoves.trans hmoves', hends⟩

/-- One call: its answer is the parser's, and an error can only leave more groups counted. -/
structure Answers (r : Reader) (answer : Except ParseError Group) (r' : Reader) : Prop
    extends r.Moves r' where
  parser : r.parser.parse = (answer, r'.parser)
  depth : r.depth ≤ r'.depth
  ok : ∀ root, answer = .ok root → r'.depth = r.depth ∧ r'.current = none
  used : r'.UsedUp
  steps : r.depth + 1 ≤ r.maxDepth →
    ∃ clauses, (Outcome.next r.enter {}).steps (r.lexer.rest.length + 2) = .done clauses r'

theorem measure_le (r : Reader) : r.measure ≤ r.lexer.rest.length + 1 := by
  unfold measure
  split <;> omega

theorem parse_follows (hused : r.UsedUp) :
    ∃ answer r', r.parse = some (answer, r') ∧ r.Answers answer r' := by
  have hsequence : r.parser.sequence =
      if r.maxDepth < r.depth + 1 then r.parser.fail {} (.tooDeep r.maxDepth)
      else r.parser.resume {} :=
    r.parser.sequence_eq_resume
  unfold parse
  by_cases hlt : r.maxDepth < r.depth + 1
  · rw [if_pos hlt]
    rw [if_pos hlt] at hsequence
    refine ⟨_, _, rfl, ⟨Nat.le_refl _, rfl⟩, ?_, Nat.le_succ _, ?_, hused, ?_⟩
    · rw [Parser.parse, hsequence]
      rfl
    · intro root h
      cases h
    · intro hle
      omega
  · rw [if_neg hlt]
    rw [if_neg hlt] at hsequence
    obtain ⟨answer, r', hrun, hresume, ⟨hoffset, hmax⟩, hends⟩ :=
      run_follows (r := r.enter) (b := {}) ⟨rfl, Nat.not_lt.1 hlt, hused⟩
    have hsteps := steps_of_run hrun (Nat.lt_succ_of_le r.enter.measure_le)
    have hcall : ∀ result, r.parser.parse = (result, r'.parser) →
        (∀ root, result = .ok root → r'.depth = r.depth ∧ r'.current = none) →
        r.Answers result r' := fun result hparse hok =>
      ⟨⟨hoffset, hmax⟩, hparse, hends.depth, hok, hends.used, fun _ => ⟨answer, hsteps⟩⟩
    rw [Parser.parse, hsequence.trans hresume] at hcall
    rw [hrun]
    cases answer with
    | error e => exact ⟨_, r', rfl, hcall _ rfl fun root h => (by cases h)⟩
    | ok clauses =>
      obtain ⟨hdepth, hcurrent⟩ := hends.ok clauses rfl
      dsimp only
      split
      · rename_i hdeep
        exact ⟨_, r', rfl, hcall _ (if_pos hdeep) fun root h => (by cases h)⟩
      · rename_i hdeep
        exact ⟨_, r', rfl, hcall _ (if_neg hdeep) fun _ _ => ⟨hdepth, hcurrent⟩⟩

end Reader

/-- At the end of the text there is nothing to read but the empty query. -/
theorem Parser.parse_at_end {p : Parser} (h : p.current = none) :
    (p.parse).1 = (if p.depth + 1 ≤ p.maxDepth then .ok {} else .error (.tooDeep p.maxDepth)) ∧
      (p.parse).2.current = none := by
  rw [parse, sequence_eq_resume]
  by_cases hle : p.depth + 1 ≤ p.maxDepth
  · have hresume : p.resume {} = (.ok [], p) := by rw [resume, h]; rfl
    have hroot : ¬ p.maxDepth < (Group.ofSequence []).depth := by
      have hone : (Group.ofSequence []).depth = 1 := by decide
      omega
    rw [if_neg (Nat.not_lt.2 hle), hresume]
    dsimp only
    rw [if_neg hroot, if_pos hle]
    exact ⟨rfl, h⟩
  · rw [if_pos (Nat.lt_of_not_le hle), if_neg hle]
    exact ⟨rfl, h⟩

/-! ## Sessions -/

/-- To read, or to keep to another limit from now on. -/
inductive Parser.Call where
  | parse
  | limit (maxDepth : Nat)

/-- The answers to the calls in their order, and the parser after them. -/
def Parser.serve : Parser → List Call → List (Except ParseError Group) × Parser
  | p, [] => ([], p)
  | p, .limit maxDepth :: calls => serve { p with maxDepth } calls
  | p, .parse :: calls =>
    let (answer, p') := p.parse
    let (answers, p'') := p'.serve calls
    (answer :: answers, p'')

namespace Reader

def serve : Reader → List Parser.Call → Option (List (Except ParseError Group) × Reader)
  | r, [] => some ([], r)
  | r, .limit maxDepth :: calls => serve { r with maxDepth } calls
  | r, .parse :: calls =>
    match r.parse with
    | none => none
    | some (answer, r') => (r'.serve calls).map fun (answers, r'') => (answer :: answers, r'')

/-- The text of a reader that has once read a query stays used up. -/
theorem serve_follows {r : Reader} (calls : List Parser.Call) (hused : r.UsedUp) :
    ∃ answers s, r.serve calls = some (answers, s) ∧
      r.parser.serve calls = (answers, s.parser) ∧ r.lexer.offset ≤ s.lexer.offset ∧
      s.UsedUp ∧ ((r.current = none ∨ ∃ root, .ok root ∈ answers) → s.current = none) := by
  induction calls generalizing r with
  | nil => exact ⟨[], r, rfl, rfl, Nat.le_refl _, hused, by simp⟩
  | cons call calls ih =>
    cases call with
    | limit maxDepth => exact ih (r := { r with maxDepth }) hused
    | parse =>
      obtain ⟨answer, r', hparse, hcall⟩ := parse_follows hused
      obtain ⟨answers, s, hserve, hparser, hoffset, hs, hnone⟩ := ih hcall.used
      refine ⟨answer :: answers, s, ?_, ?_, Nat.le_trans hcall.offset hoffset, hs, ?_⟩
      · rw [serve, hparse]
        dsimp only
        rw [hserve]
        rfl
      · rw [Parser.serve, hcall.parser]
        dsimp only
        rw [hparser]
      · -- from the end of the text no call comes away, and a query that is read ends there
        rintro (hcurrent | ⟨root, hroot⟩)
        · have hnext := (Parser.parse_at_end (p := r.parser) hcurrent).2
          rw [hcall.parser] at hnext
          exact hnone (.inl hnext)
        · rcases List.mem_cons.1 hroot with hroot | hroot
          · exact hnone (.inl (hcall.ok root hroot.symm).2)
          · exact hnone (.inr ⟨root, hroot⟩)

theorem map_parser_ofText (text : String) : (ofText text).map parser = Parser.ofText text := by
  have hasked := advance_asked { lexer := Lexer.ofText text, current := none }
  unfold ofText Parser.ofText
  generalize advance { lexer := Lexer.ofText text, current := none } = asked at hasked
  cases hasked with
  | ended hlexemes hrest =>
    rw [hlexemes, Parser.ofLexemes]
    simp only [Except.map, parser, parserAt, Lexer.lexemes_of_rest hrest]
  | token hlexemes =>
    rw [hlexemes, Parser.ofLexemes]
    rfl
  | failed hlexemes =>
    rw [hlexemes, Parser.ofLexemes]
    rfl

theorem usedUp_ofText {text : String} {r : Reader} (h : ofText text = .ok r) : r.UsedUp := by
  have hasked := advance_asked { lexer := Lexer.ofText text, current := none }
  unfold ofText at h
  generalize advance { lexer := Lexer.ofText text, current := none } = asked at hasked h
  cases hasked with
  | ended hlexemes hrest => cases h; exact fun _ => hrest
  | token => cases h; exact fun hnone => (by cases hnone)
  | failed => cases h

end Reader

/-- Whatever was asked before and whatever came out, a reader answers, as the parser does, after at most
one step for each character that is left and two more. The counter does not run below zero, only an
error can leave it larger, and the lexer does not go back. After the first query that was read there is
only the empty one, as long as one more group fits under the limit. -/
theorem session_safe {text : String} {r : Reader} (hr : Reader.ofText text = .ok r)
    (before : List Parser.Call) :
    (Reader.ofText text).map Reader.parser = Parser.ofText text ∧
      ∃ answers s, r.serve before = some (answers, s) ∧
        r.parser.serve before = (answers, s.parser) ∧ r.lexer.offset ≤ s.lexer.offset ∧
        ∃ answer s', s.parse = some (answer, s') ∧ s.parser.parse = (answer, s'.parser) ∧
          s.lexer.offset ≤ s'.lexer.offset ∧ s'.maxDepth = s.maxDepth ∧
          (s.depth + 1 ≤ s.maxDepth → ∃ clauses, (Reader.Outcome.next s.enter {}).steps
            (s.lexer.rest.length + 2) = .done clauses s') ∧
          (∀ root, answer = .ok root → s'.depth = s.depth) ∧
          (∀ e, answer = .error e → s.depth ≤ s'.depth) ∧
          ((∃ root, .ok root ∈ answers) →
            answer = if s.depth + 1 ≤ s.maxDepth then .ok {} else .error (.tooDeep s.maxDepth)) := by
  obtain ⟨answers, s, hserve, hsame, hoffset, hused, hnone⟩ :=
    Reader.serve_follows before (Reader.usedUp_ofText hr)
  obtain ⟨answer, s', hparse, hcall⟩ := Reader.parse_follows hused
  refine ⟨Reader.map_parser_ofText text, answers, s, hserve, hsame, hoffset, answer, s', hparse,
    hcall.parser, hcall.offset, hcall.maxDepth, hcall.steps, fun root h => (hcall.ok root h).1,
    fun _ _ => hcall.depth, ?_⟩
  intro hok
  have hanswer := (Parser.parse_at_end (p := s.parser) (hnone (.inr hok))).1
  rwa [hcall.parser] at hanswer

/-- The group that is left open at the error stays counted, so that the limit 2 is too narrow for the
third call. -/
theorem session_safe_open_group :
    ∃ r s s' : Reader, Reader.ofText "(a" = .ok r ∧
      r.serve [.parse, .parse, .limit 2] =
        some ([.error (.unexpectedEnd (.token .closeParen)), .ok {}], s) ∧
      s.depth = 2 ∧ s.parse = some (.error (.tooDeep 2), s') := by
  have hr : Reader.ofText "(a" = .ok ⟨⟨['a'], 1, false⟩, some (0, .openParen), 0, 64⟩ := rfl
  have hserve : Reader.serve ⟨⟨['a'], 1, false⟩, some (0, .openParen), 0, 64⟩
      [.parse, .parse, .limit 2] =
        some ([.error (.unexpectedEnd (.token .closeParen)), .ok {}], ⟨⟨[], 2, false⟩, none, 2, 2⟩) := by
    cbv
  obtain ⟨-, answers, s, hs, -, -, answer, s', hparse, -, -, -, -, -, -, hlast⟩ :=
    session_safe hr [.parse, .parse, .limit 2]
  rw [hserve] at hs
  cases hs
  have hanswer : answer = .error (.tooDeep 2) := hlast ⟨{}, by simp⟩
  rw [hanswer] at hparse
  exact ⟨_, _, s', hr, hserve, rfl, hparse⟩

end SearchQuery
