import SearchQuery.Proofs.Grammar

/-!
# SearchQuery.Proofs.Recognition

The builder accepts exactly the token lists of the grammar, and builds the clauses of their forms.

* `QueryForm.steps_tokens` — on the tokens of a form the builder runs to its clauses.
* `Builder.Reads`          — what tokens a builder has read: the parts of a derivation that its
                             stack, its sequence and its mode stand for.
* `step_reads`             — a step keeps this, with one token more.
* `finish_iff`             — the two directions together.
-/

namespace SearchQuery
namespace Builder

/-- The builder after a list of tokens; `none` when one of them does not fit. -/
def steps (b : Builder) : List Token → Option Builder
  | [] => some b
  | t :: ts => (b.step t).bind fun b' => b'.steps ts

theorem steps_append (b : Builder) (ts us : List Token) :
    b.steps (ts ++ us) = (b.steps ts).bind fun b' => b'.steps us := by
  induction ts generalizing b with
  | nil => rfl
  | cons t ts ih =>
    simp only [List.cons_append, steps]
    cases b.step t with
    | none => rfl
    | some b' => exact ih b'

theorem steps_append_of {b b' : Builder} {ts : List Token} (h : b.steps ts = some b')
    (us : List Token) : b.steps (ts ++ us) = b'.steps us := by
  rw [steps_append, h]; rfl

theorem steps_cons_of {b b' : Builder} {t : Token} (h : b.step t = some b') (ts : List Token) :
    b.steps (t :: ts) = b'.steps ts := by
  simp only [steps, h, Option.bind_some]

/-! ## Reading the parts of a form -/

/-- A word that is not settled yet takes every token but a colon as a finished clause would. -/
theorem step_settle {b : Builder} {t : Token} (hb : b.settle.mode = .sequence) (ht : t ≠ .colon) :
    b.step t = b.settle.step t := by
  obtain ⟨mode, current, opened⟩ := b
  cases mode with
  | word lead text =>
    cases t with
    | colon => exact absurd rfl ht
    | _ => rfl
  | _ => rfl

/-- A clause begins in the same way between clauses as where one must follow. -/
theorem step_sequence {b : Builder} {t : Token} (hb : b.mode = .sequence) (ht : t.starts = true) :
    b.step t = { b with mode := .operand {}, current := b.current.close }.step t := by
  obtain ⟨mode, current, opened⟩ := b
  obtain rfl : mode = .sequence := hb
  cases t with
  | closeParen | join => simp [Token.starts] at ht
  | _ => rfl

theorem lastSign_cons (l : Lead) (ls : List Lead) :
    lastSign (l :: ls) = (lastSign ls).or l.occur? := by
  unfold lastSign
  cases l with
  | not => simp [Lead.occur?]
  | sign o =>
    simp only [List.filterMap_cons, Lead.occur?, List.getLast?_cons]
    cases (ls.filterMap Lead.occur?).getLast? <;> rfl

/-- Marks with more leads after them. -/
def addLeads (m : Marks) (ls : List Lead) : Marks :=
  { m with negated := m.negated || decide (.not ∈ ls), occur := (lastSign ls).or m.occur }

theorem addLeads_nil (m : Marks) : addLeads m [] = m := by
  simp [addLeads, lastSign]

theorem addLeads_sign (m : Marks) (o : Occur) (ls : List Lead) :
    addLeads { m with occur := some o } ls = addLeads m (.sign o :: ls) := by
  simp [addLeads, lastSign_cons, Lead.occur?]

theorem addLeads_not (m : Marks) (ls : List Lead) :
    addLeads { m with negated := true } ls = addLeads m (.not :: ls) := by
  simp [addLeads, lastSign_cons, Lead.occur?]

theorem addLeads_empty (ls : List Lead) : addLeads {} ls = headMarks ls none := by
  simp [addLeads, headMarks]

theorem steps_leads (b : Builder) (ls : List Lead) (m : Marks) :
    { b with mode := .operand m }.steps (leadTokens ls) =
      some { b with mode := .operand (addLeads m ls) } := by
  induction ls generalizing m with
  | nil => rw [addLeads_nil]; rfl
  | cons l ls ih =>
    cases l with
    | sign o => rw [← addLeads_sign, ← ih]; rfl
    | not => rw [← addLeads_not, ← ih]; rfl

/-- Signs and negations after a colon, once there is a sign. -/
theorem steps_inner (b : Builder) (ls : List Lead) (m : Marks) (o : Occur) :
    { b with mode := .signedValue m o }.steps (leadTokens ls) =
      some { b with mode := .signedValue m ((lastSign ls).getD o) } := by
  induction ls generalizing o with
  | nil => rfl
  | cons l ls ih =>
    rw [lastSign_cons]
    cases l with
    | sign o' =>
      have h := ih o'
      rw [show ((lastSign ls).or (Lead.sign o').occur?).getD o = (lastSign ls).getD o' by
        cases lastSign ls <;> rfl, ← h]
      rfl
    | not =>
      rw [show ((lastSign ls).or Lead.not.occur?).getD o = (lastSign ls).getD o by
        cases lastSign ls <;> rfl, ← ih]
      rfl

theorem steps_bound (b : Builder) (m : Marks) (slot : Slot) (f : BoundForm) :
    { b with mode := .bound m slot }.steps f.tokens = some (b.setBound m slot f.bound) := by
  cases f with
  | term s => cases slot <;> rfl
  | phrase s => cases slot <;> rfl
  | signed o s hs =>
    have hstep : { b with mode := .signedBound m slot o }.step (.term s) =
        some (b.setBound m slot (some (o.text ++ s))) := by
      show (if s = "*" then none else _) = _
      rw [if_neg hs]
      cases slot <;> rfl
    show { b with mode := .signedBound m slot o }.steps [.term s] = _
    rw [steps_cons_of hstep]
    rfl

/-- A value after marks that are all known, in a mode that takes its first token as such. -/
theorem steps_value {b b₀ : Builder} {m : Marks} (v : ValueForm)
    (h : ∀ t ∈ v.tokens.head?, b.step t = b₀.stepValue m t) :
    b.steps v.tokens = some (b₀.complete (.leaf m v.leaf)) := by
  cases v with
  | term s => rw [ValueForm.tokens, steps_cons_of (h _ rfl)]; rfl
  | phrase s => rw [ValueForm.tokens, steps_cons_of (h _ rfl)]; rfl
  | compare c f =>
    rw [ValueForm.tokens, ValueForm.leaf_compare, steps_cons_of (h _ rfl)]
    exact steps_bound b₀ m (.only c) f
  | range i min max j =>
    rw [ValueForm.tokens, List.cons_append, List.cons_append, steps_cons_of (h _ rfl),
      List.append_assoc, steps_append_of (steps_bound b₀ m (.lower i) min), List.cons_append,
      steps_cons_of (show _ = some { b₀ with mode := .bound m (.upper i min.bound) } from rfl),
      steps_append_of (steps_bound b₀ m (.upper i min.bound) max)]
    rfl

/-- At a colon a word turns out to be a field name. -/
theorem step_field (b : Builder) (m : Marks) {name : String} (h : presence? name = none) :
    { b with mode := .word m name }.step .colon =
      some { b with mode := .value { m with field := some name } } := by
  simp only [step, stepWord, h]

theorem step_presence (b : Builder) (m : Marks) (p : Presence) :
    { b with mode := .word m p.keyword }.step .colon = some { b with mode := .target m p } := by
  simp only [step, stepWord, presence?_keyword]

theorem steps_front (b : Builder) (ls : List Lead) (head : Option FieldHead) :
    ∃ b₁, { b with mode := .operand {} }.steps (leadTokens ls ++ headTokens head) = some b₁ ∧
      ∀ t, (∀ l : Lead, t ≠ l.token) → (head = none → ∀ s, t ≠ .term s) →
        b₁.step t = b.stepValue (headMarks ls head) t := by
  rw [steps_append_of (steps_leads b ls {}), addLeads_empty]
  cases head with
  | none =>
    refine ⟨_, rfl, ?_⟩
    intro t hlead hterm
    cases t with
    | sign o => exact absurd rfl (hlead (.sign o))
    | not => exact absurd rfl (hlead .not)
    | term s => exact absurd rfl (hterm rfl s)
    | _ => rfl
  | some h =>
    let m : Marks := { headMarks ls none with field := some h.name }
    rw [headTokens, steps_cons_of (show _ = some _ from rfl),
      steps_cons_of (step_field b (headMarks ls none) h.ordinary)]
    have hmarks : ∀ o, { m with occur := m.occur.or o } =
        { headMarks ls none with field := some h.name, occur := (lastSign ls).or o } := by
      intro o
      simp [m, headMarks]
    obtain ⟨name, inner, ordinary, signFirst⟩ := h
    cases inner with
    | nil =>
      refine ⟨_, rfl, ?_⟩
      intro t hlead _
      have hm : m = headMarks ls (some ⟨name, [], ordinary, signFirst⟩) := by
        simp [m, headMarks, lastSign]
      cases t with
      | sign o => exact absurd rfl (hlead (.sign o))
      | _ => rw [← hm]; rfl
    | cons l inner =>
      cases l with
      | not => exact absurd rfl signFirst
      | sign o =>
        refine ⟨_, steps_inner b inner m o, ?_⟩
        intro t hlead _
        have hm : { m with occur := m.occur.or (some ((lastSign inner).getD o)) } =
            headMarks ls (some ⟨name, .sign o :: inner, ordinary, signFirst⟩) := by
          rw [hmarks]
          simp only [headMarks, Option.map_some, Option.bind_some, lastSign_cons, Lead.occur?]
          cases lastSign inner <;> rfl
        cases t with
        | sign o => exact absurd rfl (hlead (.sign o))
        | not => exact absurd rfl (hlead .not)
        | _ => rw [← hm]; rfl

/-- A builder between clauses: `done` are the clauses of its sequence when it ends here, and the
groups around it are `opened`. -/
structure Between (b : Builder) (done : List Clause) (opened : List OpenGroup) : Prop where
  settled : b.settle.mode = .sequence
  closed : b.settle.current.close = { done }
  opened : b.settle.opened = opened

/-- Between clauses, the first token of a clause is taken as where a clause must follow. -/
theorem Between.steps_eq {b : Builder} {done : List Clause} {opened : List OpenGroup}
    (h : Between b done opened) {t : Token} (ht : t.starts = true) (ts : List Token) :
    b.steps (t :: ts) =
      steps { mode := .operand {}, current := { done }, opened } (t :: ts) := by
  have hcolon : t ≠ .colon := by rintro rfl; cases ht
  simp only [steps]
  rw [step_settle h.settled hcolon, step_sequence h.settled ht, h.closed, ← h.opened]

theorem Between.closeParen {b : Builder} {done : List Clause} {opened : List OpenGroup}
    {g : OpenGroup} (h : Between b done (g :: opened)) :
    b.step .closeParen = some
      { mode := .sequence
        current := g.outer.push (.group g.marks (Group.ofSequence done).op true
          (Group.ofSequence done).children)
        opened } := by
  rw [step_settle h.settled (by simp)]
  obtain ⟨settled, closed, hopened⟩ := h
  generalize b.settle = b' at settled closed hopened
  obtain ⟨mode, current, opened'⟩ := b'
  obtain rfl : mode = .sequence := settled
  obtain rfl : opened' = g :: opened := hopened
  show some _ = _
  rw [Sequence.clauses, show current.close = _ from closed]

end Builder

open Builder

mutual

theorem QueryForm.steps_tokens : ∀ (q : QueryForm) {b : Builder} {done : List Clause}
    {opened : List OpenGroup}, Between b done opened →
    ∃ b', b.steps q.tokens = some b' ∧ Between b' (done ++ q.clauses) opened
  | .nil, b, done, opened, h => by
    refine ⟨b, by rw [QueryForm.tokens]; rfl, ?_⟩
    rw [QueryForm.clauses, List.append_nil]
    exact h
  | .cons o q, b, done, opened, h => by
    obtain ⟨t, ts, ho, ht⟩ := o.head
    obtain ⟨b₁, hb₁, hbetween⟩ :=
      OrForm.steps_tokens o { mode := .operand {}, current := { done }, opened } rfl rfl
    rw [ho, ← h.steps_eq ht, ← ho] at hb₁
    obtain ⟨b', hb', hdone⟩ := QueryForm.steps_tokens q hbetween
    refine ⟨b', ?_, ?_⟩
    · rw [QueryForm.tokens, steps_append_of hb₁]
      exact hb'
    · rw [QueryForm.clauses, OrForm.clause_eq]
      simpa using hdone

/-- The operands of a disjunction, some of which may have been read before. -/
theorem OrForm.steps_tokens : ∀ (o : OrForm) (b : Builder), b.mode = .operand {} →
    b.current.ands = [] →
    ∃ b', b.steps o.tokens = some b' ∧
      Between b' (b.current.done ++ [joinOperands .or (b.current.ors ++ o.operands)]) b.opened
  | .last a, b, hb, hands => by
    obtain ⟨b', hb', hsettle⟩ := AndForm.steps_tokens a b hb
    refine ⟨b', by rw [OrForm.tokens]; exact hb', ?_⟩
    rw [OrForm.operands, AndForm.clause_eq]
    refine ⟨by rw [hsettle], ?_, by rw [hsettle]⟩
    rw [hsettle, hands]
    simp [Sequence.close, a.operands_ne_nil]
  | .or a o, b, hb, hands => by
    obtain ⟨b₁, hb₁, hsettle⟩ := AndForm.steps_tokens a b hb
    -- the `OR` closes the conjunction before it
    let b₂ : Builder :=
      { b with
        mode := .operand {}
        current := { b.current with
          ors := b.current.ors ++ [a.clause], ands := [] } }
    have hor : b₁.step (.join .or) = some b₂ := by
      rw [step_settle (by rw [hsettle]) (by simp), hsettle]
      simp [step, stepSequence, Sequence.startOperand, hands, a.operands_ne_nil, a.clause_eq, b₂]
    obtain ⟨b', hb', hbetween⟩ := OrForm.steps_tokens o b₂ rfl rfl
    refine ⟨b', ?_, ?_⟩
    · rw [OrForm.tokens, steps_append_of hb₁, steps_cons_of hor]
      exact hb'
    · rw [OrForm.operands]
      simpa [b₂] using hbetween

theorem AndForm.steps_tokens : ∀ (a : AndForm) (b : Builder), b.mode = .operand {} →
    ∃ b', b.steps a.tokens = some b' ∧
      b'.settle = { b with
        mode := .sequence
        current := { b.current with ands := b.current.ands ++ a.operands } }
  | .last c, b, hb => by
    rw [AndForm.tokens, AndForm.operands]
    exact ClauseForm.steps_tokens c b hb
  | .and c a, b, hb => by
    obtain ⟨b₁, hb₁, hsettle⟩ := ClauseForm.steps_tokens c b hb
    -- an `AND` leaves the operands where they are
    let b₂ : Builder := { b with mode := .operand {}, current := b.current.push c.clause }
    have hand : b₁.step (.join .and) = some b₂ := by
      rw [step_settle (by rw [hsettle]; rfl) (by simp), hsettle]
      simp [step, stepSequence, complete, Sequence.push, b₂]
    obtain ⟨b', hb', hsettle'⟩ := AndForm.steps_tokens a b₂ rfl
    refine ⟨b', ?_, ?_⟩
    · rw [AndForm.tokens, steps_append_of hb₁, steps_cons_of hand]
      exact hb'
    · rw [hsettle', AndForm.operands]
      simp [Sequence.push, b₂]

theorem ClauseForm.steps_tokens : ∀ (c : ClauseForm) (b : Builder), b.mode = .operand {} →
    ∃ b', b.steps c.tokens = some b' ∧ b'.settle = b.complete c.clause
  | .group ls head q, b, hb => by
    obtain ⟨b₁, hb₁, hvalue⟩ := steps_front b ls head
    rw [show { b with mode := .operand {} } = b by rw [← hb]] at hb₁
    have hopen : b₁.step .openParen = some (b.openGroup (headMarks ls head)) :=
      hvalue _ (fun l => by cases l <;> simp [Lead.token]) (fun _ s => by simp)
    have hstart : Between (b.openGroup (headMarks ls head)) []
        (⟨headMarks ls head, b.current⟩ :: b.opened) := ⟨rfl, rfl, rfl⟩
    obtain ⟨b₂, hb₂, hbetween⟩ := QueryForm.steps_tokens q hstart
    refine ⟨b.complete (ClauseForm.clause (.group ls head q)), ?_, rfl⟩
    rw [ClauseForm.tokens, ← List.append_assoc, steps_append_of hb₁, steps_cons_of hopen,
      steps_append_of hb₂, steps_cons_of hbetween.closeParen, ClauseForm.clause, q.root_eq]
    rfl
  | .value ls head v, b, hb => by
    rw [ClauseForm.tokens, ClauseForm.clause, ← List.append_assoc]
    by_cases hword : head = none ∧ ∃ s, v = .term s
    · -- a word on its own is settled only by what follows
      obtain ⟨rfl, s, rfl⟩ := hword
      have hleads := steps_leads b ls {}
      rw [show { b with mode := .operand {} } = b by rw [← hb], addLeads_empty] at hleads
      rw [headTokens, List.append_nil, steps_append_of hleads]
      exact ⟨_, rfl, rfl⟩
    · obtain ⟨b₁, hb₁, hvalue⟩ := steps_front b ls head
      rw [show { b with mode := .operand {} } = b by rw [← hb]] at hb₁
      rw [steps_append_of hb₁]
      refine ⟨b.complete (.leaf (headMarks ls head) v.leaf), steps_value v ?_, rfl⟩
      intro t ht
      refine hvalue t (fun l hl => ?_) (fun hnone s hs => ?_)
      · refine v.afterLeads [] l ?_
        rw [List.append_nil, ← hl]
        exact ht
      · subst hs
        refine hword ⟨hnone, ?_⟩
        cases v with
        | term s => exact ⟨s, rfl⟩
        | _ => simp [ValueForm.tokens] at ht
  | .presence ls p target, b, hb => by
    have hleads := steps_leads b ls {}
    rw [show { b with mode := .operand {} } = b by rw [← hb], addLeads_empty] at hleads
    rw [ClauseForm.tokens, ClauseForm.clause, steps_append_of hleads]
    have hword : { b with mode := .operand (headMarks ls none) }.step (.term p.keyword) =
        some { b with mode := .word (headMarks ls none) p.keyword } := rfl
    rw [steps_cons_of hword, steps_cons_of (step_presence b (headMarks ls none) p)]
    cases target <;> exact ⟨_, rfl, rfl⟩

end

/-! ## What a builder has read -/

/-- A conjunction from the operands before its last one, and the last one. -/
def AndForm.ofList : List ClauseForm → ClauseForm → AndForm
  | [], c => .last c
  | d :: ds, c => .and d (AndForm.ofList ds c)

def OrForm.ofList : List AndForm → AndForm → OrForm
  | [], a => .last a
  | d :: ds, a => .or d (OrForm.ofList ds a)

def QueryForm.snoc : QueryForm → OrForm → QueryForm
  | .nil, o => .cons o .nil
  | .cons o q, o' => .cons o (q.snoc o')

theorem AndForm.tokens_ofList (cs : List ClauseForm) (c : ClauseForm) :
    (AndForm.ofList cs c).tokens = cs.flatMap (fun d => d.tokens ++ [.join .and]) ++ c.tokens := by
  induction cs with
  | nil => simp [AndForm.ofList, AndForm.tokens]
  | cons d ds ih => simp [AndForm.ofList, AndForm.tokens, ih]

theorem AndForm.operands_ofList (cs : List ClauseForm) (c : ClauseForm) :
    (AndForm.ofList cs c).operands = cs.map ClauseForm.clause ++ [c.clause] := by
  induction cs with
  | nil => simp [AndForm.ofList, AndForm.operands]
  | cons d ds ih => simp [AndForm.ofList, AndForm.operands, ih]

theorem OrForm.tokens_ofList (as : List AndForm) (a : AndForm) :
    (OrForm.ofList as a).tokens = as.flatMap (fun d => d.tokens ++ [.join .or]) ++ a.tokens := by
  induction as with
  | nil => simp [OrForm.ofList, OrForm.tokens]
  | cons d ds ih => simp [OrForm.ofList, OrForm.tokens, ih]

theorem OrForm.operands_ofList (as : List AndForm) (a : AndForm) :
    (OrForm.ofList as a).operands = as.map AndForm.clause ++ [a.clause] := by
  induction as with
  | nil => simp [OrForm.ofList, OrForm.operands]
  | cons d ds ih => simp [OrForm.ofList, OrForm.operands, ih]

theorem QueryForm.tokens_snoc (q : QueryForm) (o : OrForm) :
    (q.snoc o).tokens = q.tokens ++ o.tokens := by
  fun_induction QueryForm.snoc q o with
  | case1 o => simp [QueryForm.tokens]
  | case2 p q o ih => simp [QueryForm.tokens, ih]

theorem QueryForm.clauses_snoc (q : QueryForm) (o : OrForm) :
    (q.snoc o).clauses = q.clauses ++ [o.clause] := by
  fun_induction QueryForm.snoc q o with
  | case1 o => simp [QueryForm.clauses]
  | case2 p q o ih => simp [QueryForm.clauses, ih]

namespace Sequence

/-- After the tokens `ts` of a sequence a clause comes next: finished clauses, operands each with an
`OR` after it, and operands each with an `AND` after it have been read. -/
def Awaits (s : Sequence) (ts : List Token) : Prop :=
  ∃ (q : QueryForm) (as : List AndForm) (cs : List ClauseForm),
    s.done = q.clauses ∧ s.ors = as.map AndForm.clause ∧
      s.ands = cs.map ClauseForm.clause ∧
      ts = q.tokens ++ as.flatMap (fun a => a.tokens ++ [.join .or]) ++
        cs.flatMap (fun c => c.tokens ++ [.join .and])

/-- After the tokens `ts` of a sequence no clause is missing. -/
inductive Reads : Sequence → List Token → Prop where
  | empty : Reads {} []
  | push {s : Sequence} {ts : List Token} (c : ClauseForm) (h : s.Awaits ts) :
      Reads (s.push c.clause) (ts ++ c.tokens)

theorem Reads.close {s : Sequence} {ts : List Token} (h : s.Reads ts) :
    ∃ q : QueryForm, s.close = { done := q.clauses } ∧ ts = q.tokens := by
  cases h with
  | empty => exact ⟨.nil, by rw [QueryForm.clauses]; rfl, by rw [QueryForm.tokens]⟩
  | @push s us c hs =>
    obtain ⟨q, as, cs, hdone, hors, hands, rfl⟩ := hs
    refine ⟨q.snoc (OrForm.ofList as (AndForm.ofList cs c)), ?_, ?_⟩
    · rw [QueryForm.clauses_snoc, OrForm.clause_eq, OrForm.operands_ofList, AndForm.clause_eq,
        AndForm.operands_ofList]
      simp [Sequence.close, Sequence.push, hdone, hors, hands]
    · rw [QueryForm.tokens_snoc, OrForm.tokens_ofList, AndForm.tokens_ofList]
      simp

theorem Reads.awaits {s : Sequence} {ts : List Token} (h : s.Reads ts) : s.close.Awaits ts := by
  obtain ⟨q, hclose, hts⟩ := h.close
  exact ⟨q, [], [], by rw [hclose], by rw [hclose]; rfl, by rw [hclose]; rfl, by simp [hts]⟩

theorem Reads.awaits_and {s : Sequence} {ts : List Token} (h : s.Reads ts)
    (hs : s.ands.isEmpty = false) : s.Awaits (ts ++ [.join .and]) := by
  cases h with
  | empty => cases hs
  | @push s us c hus =>
    obtain ⟨q, as, cs, hdone, hors, hands, rfl⟩ := hus
    exact ⟨q, as, cs ++ [c], hdone, hors, by simp [Sequence.push, hands], by simp⟩

theorem Reads.awaits_or {s : Sequence} {ts : List Token} (h : s.Reads ts)
    (hs : s.ands.isEmpty = false) : s.startOperand.Awaits (ts ++ [.join .or]) := by
  cases h with
  | empty => cases hs
  | @push s us c hus =>
    obtain ⟨q, as, cs, hdone, hors, hands, rfl⟩ := hus
    refine ⟨q, as ++ [AndForm.ofList cs c], [], hdone, ?_, rfl, ?_⟩
    · simp [Sequence.startOperand, Sequence.push, hors, hands, AndForm.clause_eq,
        AndForm.operands_ofList]
    · simp [AndForm.tokens_ofList]

/-- After the tokens `ts` of a sequence the marks `m` of the next clause are known. -/
def Front (s : Sequence) (m : Marks) (ts : List Token) : Prop :=
  ∃ us ls head, s.Awaits us ∧ m = headMarks ls head ∧ ts = us ++ leadTokens ls ++ headTokens head

end Sequence

def Slot.Reads : Slot → List Token → Prop
  | .lower i, ts => ts = [.openRange i]
  | .upper i min, ts => ∃ f : BoundForm, min = f.bound ∧ ts = .openRange i :: f.tokens ++ [.to]
  | .only c, ts => ts = [.compare c]

/-- What a sequence and the clause that has been started in it have taken of the tokens. -/
def Mode.Reads (s : Sequence) : Mode → List Token → Prop
  | .sequence, ts => s.Reads ts
  | .operand lead, ts => ∃ us ls, s.Awaits us ∧ lead = headMarks ls none ∧ ts = us ++ leadTokens ls
  | .word lead text, ts =>
    ∃ us ls, s.Awaits us ∧ lead = headMarks ls none ∧ ts = us ++ leadTokens ls ++ [.term text]
  | .target lead p, ts =>
    ∃ us ls, s.Awaits us ∧ lead = headMarks ls none ∧
      ts = us ++ leadTokens ls ++ [.term p.keyword, .colon]
  | .value m, ts =>
    ∃ us ls name, s.Awaits us ∧ presence? name = none ∧
      m = { headMarks ls none with field := some name } ∧
      ts = us ++ leadTokens ls ++ [.term name, .colon]
  | .signedValue m inner, ts =>
    ∃ us ls name o is, s.Awaits us ∧ presence? name = none ∧
      m = { headMarks ls none with field := some name } ∧ lastSign (.sign o :: is) = some inner ∧
      ts = us ++ leadTokens ls ++ .term name :: .colon :: leadTokens (.sign o :: is)
  | .bound m slot, ts => ∃ us vs, s.Front m us ∧ slot.Reads vs ∧ ts = us ++ vs
  | .signedBound m slot o, ts => ∃ us vs, s.Front m us ∧ slot.Reads vs ∧ ts = us ++ vs ++ [.sign o]
  | .rangeTo m i min, ts =>
    ∃ us, ∃ f : BoundForm, s.Front m us ∧ min = f.bound ∧ ts = us ++ .openRange i :: f.tokens
  | .rangeEnd m i min max, ts =>
    ∃ us, ∃ f f' : BoundForm, s.Front m us ∧ min = f.bound ∧ max = f'.bound ∧
      ts = us ++ .openRange i :: f.tokens ++ .to :: f'.tokens

/-- The groups that are open, the innermost first. -/
inductive OpenedReads : List OpenGroup → List Token → Prop where
  | nil : OpenedReads [] []
  | cons {g : OpenGroup} {gs : List OpenGroup} {us vs : List Token} (h : OpenedReads gs us)
      (hg : g.outer.Front g.marks vs) : OpenedReads (g :: gs) (us ++ vs ++ [.openParen])

namespace Builder

def Reads (b : Builder) (ts : List Token) : Prop :=
  ∃ us vs, OpenedReads b.opened us ∧ b.mode.Reads b.current vs ∧ ts = us ++ vs

theorem reads_start : Reads {} [] :=
  ⟨[], [], .nil, .empty, rfl⟩

/-! ## Steps -/

section Steps

variable {b b' : Builder} {us vs : List Token} {t : Token}

theorem complete_reads {m : Marks} (hus : OpenedReads b.opened us) (hvs : b.current.Front m vs)
    (v : ValueForm) : (b.complete (.leaf m v.leaf)).Reads (us ++ vs ++ v.tokens) := by
  obtain ⟨ws, ls, head, hws, rfl, rfl⟩ := hvs
  have hpush := Sequence.Reads.push (.value ls head v) hws
  rw [ClauseForm.clause, ClauseForm.tokens] at hpush
  exact ⟨us, _, hus, hpush, by simp⟩

theorem stepValue_reads {m : Marks} (hus : OpenedReads b.opened us) (hvs : b.current.Front m vs)
    (h : b.stepValue m t = some b') : b'.Reads (us ++ vs ++ [t]) := by
  cases t with
  | term s => cases h; exact complete_reads hus hvs (.term s)
  | phrase s => cases h; exact complete_reads hus hvs (.phrase s)
  | openRange i => cases h; exact ⟨us, _, hus, ⟨vs, _, hvs, rfl, rfl⟩, by simp⟩
  | compare c => cases h; exact ⟨us, _, hus, ⟨vs, _, hvs, rfl, rfl⟩, by simp⟩
  | openParen => cases h; exact ⟨_, [], .cons hus hvs, .empty, by simp⟩
  | _ => cases h

theorem front_of_leads {s : Sequence} (ls : List Lead) (h : s.Awaits vs) :
    s.Front (headMarks ls none) (vs ++ leadTokens ls) :=
  ⟨vs, ls, none, h, rfl, by simp [headTokens]⟩

theorem headMarks_sign (ls : List Lead) (o : Occur) :
    { headMarks ls none with occur := some o } = headMarks (ls ++ [.sign o]) none := by
  simp [headMarks, lastSign, Lead.occur?]

theorem headMarks_not (ls : List Lead) :
    { headMarks ls none with negated := true } = headMarks (ls ++ [.not]) none := by
  simp [headMarks, lastSign, Lead.occur?]

theorem stepOperand_reads (ls : List Lead) (hus : OpenedReads b.opened us)
    (hvs : b.current.Awaits vs) (h : b.stepOperand (headMarks ls none) t = some b') :
    b'.Reads (us ++ (vs ++ leadTokens ls) ++ [t]) := by
  cases t with
  | sign o =>
    cases h
    exact ⟨us, _, hus, ⟨vs, ls ++ [.sign o], hvs, headMarks_sign ls o, rfl⟩,
      by simp [leadTokens, Lead.token]⟩
  | not =>
    cases h
    exact ⟨us, _, hus, ⟨vs, ls ++ [.not], hvs, headMarks_not ls, rfl⟩,
      by simp [leadTokens, Lead.token]⟩
  | term s => cases h; exact ⟨us, _, hus, ⟨vs, ls, hvs, rfl, rfl⟩, by simp⟩
  | _ => exact stepValue_reads hus (front_of_leads ls hvs) h

theorem closeGroup_reads (hus : OpenedReads b.opened us) (hvs : b.current.Reads vs)
    (h : b.closeGroup = some b') : b'.Reads (us ++ vs ++ [.closeParen]) := by
  unfold closeGroup at h
  split at h
  · cases h
  · rename_i g gs hopened
    cases h
    rw [hopened] at hus
    cases hus with
    | cons hgs hg =>
      rename_i ws xs
      obtain ⟨ys, ls, head, hys, hmarks, rfl⟩ := hg
      obtain ⟨q, hclose, rfl⟩ := hvs.close
      have hpush := Sequence.Reads.push (.group ls head q) hys
      have hclauses : b.current.clauses = q.clauses := by rw [Sequence.clauses, hclose]
      rw [ClauseForm.clause, ClauseForm.tokens, q.root_eq, ← hmarks, ← hclauses] at hpush
      exact ⟨ws, _, hgs, hpush, by simp⟩

theorem stepSequence_reads (hus : OpenedReads b.opened us) (hvs : b.current.Reads vs)
    (h : b.stepSequence t = some b') : b'.Reads (us ++ vs ++ [t]) := by
  have hclose : ∀ {t}, stepOperand { b with current := b.current.close } {} t = some b' →
      b'.Reads (us ++ vs ++ [t]) := by
    intro t ht
    have := stepOperand_reads (b := { b with current := b.current.close }) [] hus hvs.awaits ht
    simpa [leadTokens] using this
  cases t with
  | closeParen => exact closeGroup_reads hus hvs h
  | join op =>
    simp only [stepSequence] at h
    split at h
    · cases h
    · rename_i hands
      rw [Bool.not_eq_true] at hands
      cases op with
      | and =>
        cases h
        exact ⟨us, _, hus, ⟨_, [], hvs.awaits_and hands, rfl, rfl⟩, by simp [leadTokens]⟩
      | or =>
        cases h
        exact ⟨us, _, hus, ⟨_, [], hvs.awaits_or hands, rfl, rfl⟩, by simp [leadTokens]⟩
  | _ => exact hclose h

theorem stepWord_reads {ls : List Lead} {s : String} (hus : OpenedReads b.opened us)
    (hvs : b.current.Awaits vs) (hmode : b.mode = .word (headMarks ls none) s)
    (h : b.stepWord (headMarks ls none) s t = some b') :
    b'.Reads (us ++ (vs ++ leadTokens ls ++ [.term s]) ++ [t]) := by
  have hsettle : b.settle = b.complete (.leaf (headMarks ls none) (.term s false)) := by
    unfold settle
    rw [hmode]
  have hpush := Sequence.Reads.push (.value ls none (.term s)) hvs
  rw [ClauseForm.clause, ClauseForm.tokens] at hpush
  have hnext : ∀ {t}, b.settle.stepSequence t = some b' →
      b'.Reads (us ++ (vs ++ leadTokens ls ++ [.term s]) ++ [t]) := by
    intro t ht
    rw [hsettle] at ht
    have := stepSequence_reads (b := b.complete (.leaf (headMarks ls none) (.term s false)))
      hus hpush ht
    simpa [headTokens, ValueForm.tokens] using this
  cases t with
  | colon =>
    simp only [stepWord] at h
    cases hp : presence? s with
    | some p =>
      rw [hp] at h
      cases h
      exact ⟨us, _, hus, ⟨vs, ls, hvs, rfl, rfl⟩, by simp [keyword_of_presence? hp]⟩
    | none =>
      rw [hp] at h
      cases h
      exact ⟨us, _, hus, ⟨vs, ls, s, hvs, hp, rfl, rfl⟩, by simp⟩
  | _ => exact hnext h

theorem stepTarget_reads {ls : List Lead} {p : Presence} (hus : OpenedReads b.opened us)
    (hvs : b.current.Awaits vs) (h : b.stepTarget (headMarks ls none) p t = some b') :
    b'.Reads (us ++ (vs ++ leadTokens ls ++ [.term p.keyword, .colon]) ++ [t]) := by
  have hpush : ∀ target : TargetForm,
      (b.complete (ClauseForm.clause (.presence ls p target))).Reads
        (us ++ (vs ++ leadTokens ls ++ [.term p.keyword, .colon]) ++ [target.token]) := by
    intro target
    have := Sequence.Reads.push (.presence ls p target) hvs
    exact ⟨us, _, hus, this, by simp [ClauseForm.tokens]⟩
  cases t with
  | term s => cases h; exact hpush (.term s)
  | phrase s => cases h; exact hpush (.phrase s)
  | _ => cases h

theorem setBound_reads {m : Marks} {slot : Slot} {ws : List Token} (hus : OpenedReads b.opened us)
    (hvs : b.current.Front m vs) (hws : slot.Reads ws) (f : BoundForm) :
    (b.setBound m slot f.bound).Reads (us ++ (vs ++ ws) ++ f.tokens) := by
  cases slot with
  | lower i =>
    obtain rfl : ws = _ := hws
    exact ⟨us, _, hus, ⟨vs, f, hvs, rfl, rfl⟩, by simp⟩
  | upper i min =>
    obtain ⟨f₀, rfl, rfl⟩ := hws
    exact ⟨us, _, hus, ⟨vs, f₀, f, hvs, rfl, rfl, rfl⟩, by simp⟩
  | only c =>
    obtain rfl : ws = _ := hws
    have := complete_reads hus hvs (.compare c f)
    simpa [ValueForm.tokens, ValueForm.leaf_compare, setBound] using this

theorem stepBound_reads {m : Marks} {slot : Slot} {ws : List Token} (hus : OpenedReads b.opened us)
    (hvs : b.current.Front m vs) (hws : slot.Reads ws) (h : b.stepBound m slot t = some b') :
    b'.Reads (us ++ (vs ++ ws) ++ [t]) := by
  cases t with
  | sign o => cases h; exact ⟨us, _, hus, ⟨vs, ws, hvs, hws, rfl⟩, by simp⟩
  | term s => cases h; exact setBound_reads hus hvs hws (.term s)
  | phrase s => cases h; exact setBound_reads hus hvs hws (.phrase s)
  | _ => cases h

theorem stepSignedBound_reads {m : Marks} {slot : Slot} {o : Occur} {ws : List Token}
    (hus : OpenedReads b.opened us) (hvs : b.current.Front m vs) (hws : slot.Reads ws)
    (h : b.stepSignedBound m slot o t = some b') :
    b'.Reads (us ++ (vs ++ ws ++ [.sign o]) ++ [t]) := by
  cases t with
  | term s =>
    simp only [stepSignedBound] at h
    split at h
    · cases h
    · rename_i hs
      cases h
      have := setBound_reads hus hvs hws (.signed o s hs)
      simpa [BoundForm.tokens, BoundForm.bound] using this
  | _ => cases h

theorem front_of_field {s : Sequence} {name : String} (ls is : List Lead) (h : s.Awaits vs)
    (hname : presence? name = none) (his : is.head? ≠ some .not) :
    s.Front
      { headMarks ls none with field := some name, occur := (lastSign ls).or (lastSign is) }
      (vs ++ leadTokens ls ++ .term name :: .colon :: leadTokens is) :=
  ⟨vs, ls, some ⟨name, is, hname, his⟩, h, rfl, rfl⟩

theorem stepField_reads {ls : List Lead} {name : String} (hus : OpenedReads b.opened us)
    (hvs : b.current.Awaits vs) (hname : presence? name = none)
    (h : b.stepValue { headMarks ls none with field := some name } t = some b') :
    b'.Reads (us ++ (vs ++ leadTokens ls ++ [.term name, .colon]) ++ [t]) := by
  have hfront := front_of_field ls [] hvs hname (by simp)
  rw [show (lastSign ls).or (lastSign []) = (headMarks ls none).occur from rfl] at hfront
  exact stepValue_reads hus hfront h

theorem stepSignedValue_reads {ls is : List Lead} {name : String} {o inner : Occur}
    (hus : OpenedReads b.opened us) (hvs : b.current.Awaits vs) (hname : presence? name = none)
    (hinner : lastSign (.sign o :: is) = some inner)
    (h : b.stepSignedValue { headMarks ls none with field := some name } inner t = some b') :
    b'.Reads (us ++
      (vs ++ leadTokens ls ++ .term name :: .colon :: leadTokens (.sign o :: is)) ++ [t]) := by
  have hfront := front_of_field ls (.sign o :: is) hvs hname (by simp)
  rw [hinner] at hfront
  have hvalue : ∀ {t}, b.stepValue { headMarks ls none with
        field := some name, occur := (headMarks ls none).occur.or (some inner) } t = some b' →
      b'.Reads (us ++ (vs ++ leadTokens ls ++
        .term name :: .colon :: leadTokens (.sign o :: is)) ++ [t]) := by
    intro t ht
    refine stepValue_reads hus ?_ ht
    simpa [headMarks] using hfront
  cases t with
  | sign o' =>
    cases h
    refine ⟨us, _, hus, ⟨vs, ls, name, o, is ++ [.sign o'], hvs, hname, rfl, ?_, rfl⟩, ?_⟩
    · simp [lastSign, Lead.occur?, List.getLast?_cons]
    · simp [leadTokens, Lead.token]
  | not =>
    cases h
    refine ⟨us, _, hus, ⟨vs, ls, name, o, is ++ [.not], hvs, hname, rfl, ?_, rfl⟩, ?_⟩
    · rw [← hinner]
      simp [lastSign, List.filterMap_cons, Lead.occur?]
    · simp [leadTokens, Lead.token]
  | _ => exact hvalue h

end Steps

/-- A step adds its token to what has been read. -/
theorem step_reads {b b' : Builder} {t : Token} {ts : List Token} (hb : b.Reads ts)
    (h : b.step t = some b') : b'.Reads (ts ++ [t]) := by
  obtain ⟨us, vs, hus, hvs, rfl⟩ := hb
  -- the mode says which part of a clause the last tokens are
  cases hm : b.mode with
  | sequence =>
    rw [hm] at hvs
    exact stepSequence_reads hus hvs (by simpa only [step, hm] using h)
  | operand lead =>
    rw [hm] at hvs
    obtain ⟨ws, ls, hws, rfl, rfl⟩ := hvs
    exact stepOperand_reads ls hus hws (by simpa only [step, hm] using h)
  | word lead s =>
    rw [hm] at hvs
    obtain ⟨ws, ls, hws, rfl, rfl⟩ := hvs
    exact stepWord_reads hus hws hm (by simpa only [step, hm] using h)
  | target lead p =>
    rw [hm] at hvs
    obtain ⟨ws, ls, hws, rfl, rfl⟩ := hvs
    exact stepTarget_reads hus hws (by simpa only [step, hm] using h)
  | value m =>
    rw [hm] at hvs
    obtain ⟨ws, ls, name, hws, hname, rfl, rfl⟩ := hvs
    simp only [step, hm] at h
    split at h
    · rename_i o
      cases h
      exact ⟨us, _, hus, ⟨ws, ls, name, o, [], hws, hname, rfl, rfl, rfl⟩,
        by simp [leadTokens, Lead.token]⟩
    · exact stepField_reads hus hws hname h
  | signedValue m inner =>
    rw [hm] at hvs
    obtain ⟨ws, ls, name, o, is, hws, hname, rfl, hinner, rfl⟩ := hvs
    exact stepSignedValue_reads hus hws hname hinner (by simpa only [step, hm] using h)
  | bound m slot =>
    rw [hm] at hvs
    obtain ⟨ws, xs, hws, hxs, rfl⟩ := hvs
    exact stepBound_reads hus hws hxs (by simpa only [step, hm] using h)
  | signedBound m slot o =>
    rw [hm] at hvs
    obtain ⟨ws, xs, hws, hxs, rfl⟩ := hvs
    exact stepSignedBound_reads hus hws hxs (by simpa only [step, hm] using h)
  | rangeTo m i min =>
    rw [hm] at hvs
    obtain ⟨ws, f, hws, rfl, rfl⟩ := hvs
    simp only [step, hm] at h
    split at h
    · cases h
      exact ⟨us, _, hus, ⟨ws, _, hws, ⟨f, rfl, rfl⟩, rfl⟩, by simp⟩
    · cases h
  | rangeEnd m i min max =>
    rw [hm] at hvs
    obtain ⟨ws, f, f', hws, rfl, rfl, rfl⟩ := hvs
    simp only [step, hm] at h
    split at h
    · rename_i j
      cases h
      have := complete_reads hus hws (.range i f f' j)
      simpa [ValueForm.tokens, ValueForm.leaf] using this
    · cases h

theorem steps_reads {b b' : Builder} {ts us : List Token} (hb : b.Reads us)
    (h : b.steps ts = some b') : b'.Reads (us ++ ts) := by
  induction ts generalizing b us with
  | nil =>
    cases h
    rw [List.append_nil]
    exact hb
  | cons t ts ih =>
    obtain ⟨b₁, hs, hrest⟩ := Option.bind_eq_some_iff.1 h
    have := ih (step_reads hb hs) hrest
    simpa using this

theorem Reads.settle {b : Builder} {ts : List Token} (h : b.Reads ts) : b.settle.Reads ts := by
  cases hm : b.mode with
  | word lead s =>
    obtain ⟨us, vs, hus, hvs, rfl⟩ := h
    rw [hm] at hvs
    obtain ⟨ws, ls, hws, rfl, rfl⟩ := hvs
    have := complete_reads hus (front_of_leads ls hws) (.term s)
    simpa [Builder.settle, hm, ValueForm.tokens, ValueForm.leaf] using this
  | _ => simpa [Builder.settle, hm] using h

theorem finish_reads {b : Builder} {ts : List Token} {cs : List Clause} (hb : b.Reads ts)
    (h : b.finish = some cs) : ∃ q : QueryForm, q.tokens = ts ∧ q.clauses = cs := by
  obtain ⟨us, vs, hus, hvs, rfl⟩ := hb.settle
  simp only [finish] at h
  split at h
  · rename_i hmode hopened
    cases h
    rw [hmode] at hvs
    rw [hopened] at hus
    cases hus
    obtain ⟨q, hclose, rfl⟩ := Sequence.Reads.close hvs
    exact ⟨q, rfl, by rw [Sequence.clauses, hclose]⟩
  · cases h

/-- The builder comes to an end with clauses exactly when the tokens have a derivation that stands
for them. -/
theorem finish_iff {ts : List Token} {cs : List Clause} :
    (∃ b, steps {} ts = some b ∧ b.finish = some cs) ↔
      ∃ q : QueryForm, q.tokens = ts ∧ q.clauses = cs := by
  constructor
  · rintro ⟨b, hb, hfinish⟩
    exact finish_reads (steps_reads reads_start hb) hfinish
  · rintro ⟨q, rfl, rfl⟩
    have hstart : Between {} [] [] := ⟨rfl, rfl, rfl⟩
    obtain ⟨b, hb, hbetween⟩ := q.steps_tokens hstart
    refine ⟨b, hb, ?_⟩
    simp only [finish, hbetween.settled, hbetween.opened, Sequence.clauses, hbetween.closed,
      List.nil_append]

end Builder
end SearchQuery
