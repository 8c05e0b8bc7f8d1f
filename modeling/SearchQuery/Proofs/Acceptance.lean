import Mathlib.Control.Monad.Basic
import SearchQuery.Clause.Parser
import SearchQuery.Proofs.Recognition
import SearchQuery.Proofs.Spelling

/-!
# SearchQuery.Proofs.Acceptance

Which texts are read under a limit on the nesting of groups, and to which trees.

While it reads, the parser counts the groups that are open; when it is done it measures the tree,
where a group made by a connective counts too. `Builder.reach` connects the two counts: it is the
nesting that the parentheses read so far force upon the finished tree, and it never gets smaller.

* `depth_le_of_finish`     — no more groups are ever open than the finished tree is deep.
* `QueryForm.depth_le`     — a tree is at most one level deeper than its query has tokens.
* `parseWithin_ok_iff`     — a text is read exactly when its tokens have a derivation whose tree
  keeps to the limit.
* `parseWithin_derivation` — with a limit as large as the text is long, the limit plays no part.
-/

namespace SearchQuery

/-! ## Parentheses in a tree -/

namespace Clause

mutual

/-- How deeply groups in parentheses are nested. -/
def nest : Clause → Nat
  | .leaf _ _ => 0
  | .group _ _ parens children => nestAll children + parens.toNat

def nestAll : List Clause → Nat
  | [] => 0
  | c :: cs => max c.nest (nestAll cs)

end

theorem nestAll_append (as bs : List Clause) :
    nestAll (as ++ bs) = max (nestAll as) (nestAll bs) := by
  induction as with
  | nil => simp [nestAll]
  | cons a as ih => rw [List.cons_append, nestAll, nestAll, ih, Nat.max_assoc]

@[simp] theorem nestAll_singleton (c : Clause) : nestAll [c] = c.nest := by
  simp [nestAll]

mutual

theorem nest_le_depth : (c : Clause) → c.nest ≤ c.depth
  | .leaf _ _ => Nat.le_refl 0
  | .group _ _ parens children => by
    have hall := nestAll_le_deepest children
    have hone := Bool.toNat_le parens
    rw [nest, depth]
    omega

theorem nestAll_le_deepest : (cs : List Clause) → nestAll cs ≤ deepest cs
  | [] => Nat.le_refl 0
  | c :: cs => by
    have hc := nest_le_depth c
    have hcs := nestAll_le_deepest cs
    rw [nestAll, deepest]
    omega

end

end Clause

open Clause

@[simp] theorem nest_joinOperands (op : Connective) (cs : List Clause) :
    (joinOperands op cs).nest = nestAll cs := by
  rw [joinOperands.eq_def]
  split
  · rw [nestAll_singleton]
  · rw [nest, Bool.toNat_false, Nat.add_zero]

/-- Lifting a group takes no parentheses away. -/
@[simp] theorem nestAll_ofSequence (cs : List Clause) :
    nestAll (Group.ofSequence cs).children = nestAll cs := by
  rw [Group.ofSequence.eq_def]
  split
  · rw [nestAll_singleton, nest, Bool.toNat_false, Nat.add_zero]
  · rfl

theorem deepest_ofSequence_le (cs : List Clause) :
    deepest (Group.ofSequence cs).children ≤ deepest cs := by
  rw [Group.ofSequence.eq_def]
  split
  · simp only [deepest, depth]
    omega
  · exact Nat.le_refl _

theorem Group.toClause_ofSequence (cs : List Clause) :
    (Group.ofSequence cs).toClause =
      .group {} (Group.ofSequence cs).op false (Group.ofSequence cs).children := by
  rw [Group.ofSequence.eq_def]
  split <;> rfl

/-- A whole query has neither marks nor parentheses. -/
theorem QueryForm.toClause_root (q : QueryForm) :
    q.root.toClause = .group {} q.root.op false q.root.children := by
  rw [q.root_eq, Group.toClause_ofSequence]

theorem Group.depth_ofSequence (cs : List Clause) :
    (Group.ofSequence cs).depth = deepest (Group.ofSequence cs).children + 1 := by
  rw [Group.depth, Group.toClause, Clause.depth]

/-! ## Parentheses while reading -/

namespace Sequence

def nest (s : Sequence) : Nat :=
  max (nestAll s.done) (max (nestAll s.ors) (nestAll s.ands))

@[simp] theorem nest_push (s : Sequence) (c : Clause) : (s.push c).nest = max s.nest c.nest := by
  simp only [nest, push, nestAll_append, nestAll_singleton]
  omega

@[simp] theorem nest_startOperand (s : Sequence) : s.startOperand.nest = s.nest := by
  simp only [nest, startOperand, nestAll_append, nest_joinOperands, nestAll]
  omega

@[simp] theorem nest_close (s : Sequence) : s.close.nest = s.nest := by
  rw [close]
  split
  · rfl
  · simp only [nest, nestAll_append, nest_joinOperands, nestAll]
    omega

theorem Reads.nestAll_clauses {s : Sequence} {ts : List Token} (h : s.Reads ts) :
    nestAll s.clauses = s.nest := by
  obtain ⟨q, hclose, -⟩ := h.close
  rw [← nest_close, clauses, hclose]
  simp [nest, nestAll]

end Sequence

/-- The nesting of the whole query if all open groups were closed now, the innermost one around `n`
levels. -/
def surround : List OpenGroup → Nat → Nat
  | [], n => n + 1
  | g :: gs, n => surround gs (max g.outer.nest (n + 1))

theorem surround_mono (gs : List OpenGroup) {m n : Nat} (h : m ≤ n) :
    surround gs m ≤ surround gs n := by
  induction gs generalizing m n with
  | nil => exact Nat.succ_le_succ h
  | cons g gs ih => exact ih (by omega)

theorem lt_surround (gs : List OpenGroup) (n : Nat) : gs.length + n < surround gs n := by
  induction gs generalizing n with
  | nil => simp [surround]
  | cons g gs ih =>
    have hlt := ih (max g.outer.nest (n + 1))
    rw [surround, List.length_cons]
    omega

namespace Builder

def reach (b : Builder) : Nat :=
  surround b.opened b.current.nest

theorem depth_le_reach (b : Builder) : b.depth ≤ b.reach := by
  have hlt := lt_surround b.opened b.current.nest
  rw [depth, reach]
  omega

/-- What any step does to the nesting. -/
structure Grows (b b' : Builder) : Prop where
  reach : b.reach ≤ b'.reach
  depth : b'.depth ≤ b.depth + 1

/-- A step that opens and closes nothing. -/
theorem grows_of_eq {b b' : Builder} (hopened : b'.opened = b.opened)
    (hnest : b'.current.nest = b.current.nest) : Grows b b' := by
  constructor
  · exact Nat.le_of_eq (by rw [Builder.reach, Builder.reach, hopened, hnest])
  · rw [Builder.depth, Builder.depth, hopened]
    omega

theorem Grows.of_eq {b b₁ b' : Builder} (h : Grows b₁ b') (hopened : b₁.opened = b.opened)
    (hnest : b₁.current.nest = b.current.nest) : Grows b b' := by
  obtain ⟨hreach, hdepth⟩ := h
  constructor
  · rwa [Builder.reach, hopened, hnest] at hreach
  · rwa [Builder.depth, Builder.depth, hopened] at hdepth

theorem complete_leaf_grows (b : Builder) (m : Marks) (l : Leaf) :
    Grows b (b.complete (.leaf m l)) :=
  grows_of_eq rfl (by simp [complete, Clause.nest])

theorem openGroup_grows (b : Builder) (m : Marks) : Grows b (b.openGroup m) := by
  constructor
  · refine surround_mono b.opened ?_
    exact Nat.le_max_left _ _
  · simp [openGroup, Builder.depth]

theorem closeGroup_grows {b b' : Builder} {ts : List Token} (hb : b.current.Reads ts)
    (h : b.closeGroup = some b') : Grows b b' := by
  unfold closeGroup at h
  split at h
  · cases h
  · rename_i g gs hopened
    cases h
    have hnest := hb.nestAll_clauses
    constructor
    · -- the level that the group adds when it is closed was counted while it was open
      rw [Builder.reach, Builder.reach, hopened, surround]
      refine surround_mono gs (Nat.le_of_eq ?_)
      rw [Sequence.nest_push, Clause.nest, nestAll_ofSequence, hnest, Bool.toNat_true]
    · simp only [Builder.depth, hopened, List.length_cons]
      omega

theorem stepValue_grows {b b' : Builder} {m : Marks} {t : Token}
    (h : b.stepValue m t = some b') : Grows b b' := by
  cases t with
  | term s => cases h; exact complete_leaf_grows b m _
  | phrase s => cases h; exact complete_leaf_grows b m _
  | openRange i => cases h; exact grows_of_eq rfl rfl
  | compare c => cases h; exact grows_of_eq rfl rfl
  | openParen => cases h; exact openGroup_grows b m
  | _ => cases h

theorem stepOperand_grows {b b' : Builder} {m : Marks} {t : Token}
    (h : b.stepOperand m t = some b') : Grows b b' := by
  rw [stepOperand.eq_def] at h
  split at h
  · cases h; exact grows_of_eq rfl rfl
  · cases h; exact grows_of_eq rfl rfl
  · cases h; exact grows_of_eq rfl rfl
  · exact stepValue_grows h

theorem stepSequence_grows {b b' : Builder} {t : Token} {ts : List Token}
    (hb : b.current.Reads ts) (h : b.stepSequence t = some b') : Grows b b' := by
  rw [stepSequence.eq_def] at h
  split at h
  · exact closeGroup_grows hb h
  · rename_i op
    split at h
    · cases h
    · cases op with
      | and => cases h; exact grows_of_eq rfl rfl
      | or => cases h; exact grows_of_eq rfl (by simp)
  · exact (stepOperand_grows h).of_eq rfl (by simp)

theorem setBound_grows (b : Builder) (m : Marks) (slot : Slot) (bound : Option String) :
    Grows b (b.setBound m slot bound) := by
  cases slot with
  | lower i => exact grows_of_eq rfl rfl
  | upper i min => exact grows_of_eq rfl rfl
  | only c => exact complete_leaf_grows b m _

theorem stepWord_grows {b b' : Builder} {lead : Marks} {s : String} {t : Token} {ts : List Token}
    (hm : b.mode = .word lead s) (hb : b.settle.current.Reads ts)
    (h : b.stepWord lead s t = some b') : Grows b b' := by
  have hsettle : b.settle = b.complete (.leaf lead (.term s false)) := by
    simp only [Builder.settle, hm]
  rw [stepWord.eq_def] at h
  split at h
  · split at h
    · cases h; exact grows_of_eq rfl rfl
    · cases h; exact grows_of_eq rfl rfl
  · rw [hsettle] at h hb
    refine (stepSequence_grows hb h).of_eq rfl ?_
    simp [complete, Clause.nest]

theorem stepTarget_grows {b b' : Builder} {lead : Marks} {p : Presence} {t : Token}
    (h : b.stepTarget lead p t = some b') : Grows b b' := by
  cases t with
  | term s => cases h; exact complete_leaf_grows b _ _
  | phrase s => cases h; exact complete_leaf_grows b _ _
  | _ => cases h

theorem stepSignedValue_grows {b b' : Builder} {m : Marks} {inner : Occur} {t : Token}
    (h : b.stepSignedValue m inner t = some b') : Grows b b' := by
  rw [stepSignedValue.eq_def] at h
  split at h
  · cases h; exact grows_of_eq rfl rfl
  · cases h; exact grows_of_eq rfl rfl
  · exact stepValue_grows h

theorem stepBound_grows {b b' : Builder} {m : Marks} {slot : Slot} {t : Token}
    (h : b.stepBound m slot t = some b') : Grows b b' := by
  cases t with
  | sign o => cases h; exact grows_of_eq rfl rfl
  | term s => cases h; exact setBound_grows b m slot _
  | phrase s => cases h; exact setBound_grows b m slot _
  | _ => cases h

theorem stepSignedBound_grows {b b' : Builder} {m : Marks} {slot : Slot} {o : Occur} {t : Token}
    (h : b.stepSignedBound m slot o t = some b') : Grows b b' := by
  cases t with
  | term s =>
    simp only [stepSignedBound] at h
    split at h
    · cases h
    · cases h; exact setBound_grows b m slot _
  | _ => cases h

theorem step_grows {b b' : Builder} {t : Token} {ts : List Token} (hb : b.Reads ts)
    (h : b.step t = some b') : Grows b b' := by
  obtain ⟨us, vs, hus, hvs, rfl⟩ := hb.settle
  -- only between clauses, or after a word that ends one, can a step close a group
  cases hm : b.mode with
  | sequence =>
    have hsettle : b.settle = b := by simp only [Builder.settle, hm]
    rw [hsettle, hm] at hvs
    exact stepSequence_grows hvs (by simpa only [step, hm] using h)
  | operand lead => exact stepOperand_grows (by simpa only [step, hm] using h)
  | word lead s =>
    have hmode : b.settle.mode = .sequence := by simp only [Builder.settle, hm, complete]
    rw [hmode] at hvs
    exact stepWord_grows hm hvs (by simpa only [step, hm] using h)
  | target lead p => exact stepTarget_grows (by simpa only [step, hm] using h)
  | value m =>
    simp only [step, hm] at h
    split at h
    · cases h; exact grows_of_eq rfl rfl
    · exact stepValue_grows h
  | signedValue m inner => exact stepSignedValue_grows (by simpa only [step, hm] using h)
  | bound m slot => exact stepBound_grows (by simpa only [step, hm] using h)
  | signedBound m slot o => exact stepSignedBound_grows (by simpa only [step, hm] using h)
  | rangeTo m i min =>
    simp only [step, hm] at h
    split at h
    · cases h; exact grows_of_eq rfl rfl
    · cases h
  | rangeEnd m i min max =>
    simp only [step, hm] at h
    split at h
    · cases h; exact complete_leaf_grows b m _
    · cases h

theorem steps_reach {b b' : Builder} {ts us : List Token} (hb : b.Reads us)
    (h : b.steps ts = some b') : b.reach ≤ b'.reach := by
  induction ts generalizing b us with
  | nil => cases h; exact Nat.le_refl _
  | cons t ts ih =>
    obtain ⟨b₁, hs, hrest⟩ := Option.bind_eq_some_iff.1 h
    exact Nat.le_trans (step_grows hb hs).reach (ih (step_reads hb hs) hrest)

theorem reach_le_of_finish {b : Builder} {ts : List Token} {cs : List Clause} (hb : b.Reads ts)
    (h : b.finish = some cs) : b.reach ≤ (Group.ofSequence cs).depth := by
  obtain ⟨us, vs, -, hvs, rfl⟩ := hb.settle
  have hreach : b.settle.reach = b.reach := by
    unfold Builder.settle
    split
    · simp [Builder.reach, complete, Clause.nest]
    · rfl
  simp only [finish] at h
  split at h
  · rename_i hmode hopened
    cases h
    rw [hmode] at hvs
    have hnest := Sequence.Reads.nestAll_clauses hvs
    have hle := nestAll_le_deepest (Group.ofSequence b.settle.current.clauses).children
    rw [nestAll_ofSequence, hnest] at hle
    rw [← hreach, Builder.reach, hopened, surround, Group.depth_ofSequence]
    exact Nat.succ_le_succ hle
  · cases h

theorem depth_le_of_finish {b b' : Builder} {ts us : List Token} {cs : List Clause}
    (hb : b.Reads us) (h : b.steps ts = some b') (hfinish : b'.finish = some cs) :
    b.depth ≤ (Group.ofSequence cs).depth :=
  calc b.depth ≤ b.reach := b.depth_le_reach
    _ ≤ b'.reach := steps_reach hb h
    _ ≤ (Group.ofSequence cs).depth := reach_le_of_finish (steps_reads hb h) hfinish

end Builder

/-! ## The size of a tree -/

mutual

theorem QueryForm.deepest_le : (q : QueryForm) → deepest q.clauses ≤ q.tokens.length
  | .nil => by rw [QueryForm.clauses, deepest]; exact Nat.zero_le _
  | .cons o q => by
    have ho := o.depth_lt
    have hq := q.deepest_le
    simp only [QueryForm.clauses, QueryForm.tokens, deepest, List.length_append]
    omega

theorem OrForm.depth_lt : (o : OrForm) →
    deepest o.operands < o.tokens.length ∧ o.clause.depth < o.tokens.length
  | .last a => by
    have ha := a.depth_lt
    simp only [OrForm.operands, OrForm.clause, OrForm.tokens, deepest]
    omega
  | .or a o => by
    have ha := a.depth_lt
    have ho := o.depth_lt
    simp only [OrForm.operands, OrForm.clause, OrForm.tokens, depth, deepest, List.length_append,
      List.length_cons]
    omega

theorem AndForm.depth_lt : (a : AndForm) →
    deepest a.operands < a.tokens.length ∧ a.clause.depth < a.tokens.length
  | .last c => by
    have hc := c.depth_lt
    simp only [AndForm.operands, AndForm.clause, AndForm.tokens, deepest]
    omega
  | .and c a => by
    have hc := c.depth_lt
    have ha := a.depth_lt
    simp only [AndForm.operands, AndForm.clause, AndForm.tokens, depth, deepest, List.length_append,
      List.length_cons]
    omega

theorem ClauseForm.depth_lt : (c : ClauseForm) → c.clause.depth < c.tokens.length
  | .group ls head q => by
    have hq := q.deepest_le
    have hle := deepest_ofSequence_le q.clauses
    simp only [ClauseForm.clause, q.root_eq, ClauseForm.tokens, depth, List.length_append,
      List.length_cons]
    omega
  | .value ls head v => by
    obtain ⟨t, ts, hc, -⟩ := (ClauseForm.value ls head v).head
    rw [hc, ClauseForm.clause, depth]
    exact Nat.succ_pos _
  | .presence ls p target => by
    obtain ⟨t, ts, hc, -⟩ := (ClauseForm.presence ls p target).head
    rw [hc, ClauseForm.clause, depth]
    exact Nat.succ_pos _

end

theorem QueryForm.depth_le (q : QueryForm) : q.root.depth ≤ q.tokens.length + 1 := by
  rw [q.root_eq, Group.depth_ofSequence]
  exact Nat.succ_le_succ (Nat.le_trans (deepest_ofSequence_le q.clauses) q.deepest_le)

/-! ## Reading lexemes -/

namespace Parser

theorem conclude_ok_iff {p : Parser} {b : Builder} {cs : List Clause} :
    (p.conclude b).1 = .ok cs ↔ b.finish = some cs := by
  unfold conclude
  cases b.finish <;> simp [fail]

theorem reject_not_ok (p : Parser) (b : Builder) (position : Nat) (t : Token)
    (cs : List Clause) : (p.reject b position t).1 ≠ .ok cs := by
  unfold reject
  split <;> simp [fail]

theorem run_ok {p : Parser} {b : Builder} {position : Nat} {t : Token} {pending : List Lexeme}
    {cs : List Clause} (h : (p.run b position t pending).1 = .ok cs) :
    ∃ ts b', pending.mapM Lexeme.token = .ok ts ∧ b.steps (t :: ts) = some b' ∧
      b'.finish = some cs := by
  induction pending generalizing b position t with
  | nil =>
    rw [run] at h
    cases hs : b.step t with
    | none =>
      rw [hs] at h
      exact absurd h (reject_not_ok _ _ _ _ _)
    | some b' =>
      simp only [hs] at h
      split at h
      · cases h
      · refine ⟨[], b', rfl, ?_, conclude_ok_iff.1 h⟩
        rw [Builder.steps_cons_of hs, Builder.steps]
  | cons x rest ih =>
    rw [run] at h
    cases hs : b.step t with
    | none =>
      rw [hs] at h
      exact absurd h (reject_not_ok _ _ _ _ _)
    | some b₁ =>
      simp only [hs] at h
      cases hx : x.token with
      | error e => simp only [hx] at h; cases h
      | ok t' =>
        simp only [hx] at h
        split at h
        · cases h
        · obtain ⟨ts, b', hts, hb', hfinish⟩ := ih h
          refine ⟨t' :: ts, b', ?_, ?_, hfinish⟩
          · rw [List.mapM_cons, hx, hts]
            rfl
          · rw [Builder.steps_cons_of hs, hb']

theorem run_of_steps {p : Parser} (hp : p.depth = 0) {b b' : Builder} {position : Nat} {t : Token}
    {pending : List Lexeme} {us ts : List Token} {cs : List Clause} (hb : b.Reads us)
    (hts : pending.mapM Lexeme.token = .ok ts) (hsteps : b.steps (t :: ts) = some b')
    (hfinish : b'.finish = some cs) (hdepth : (Group.ofSequence cs).depth ≤ p.maxDepth) :
    (p.run b position t pending).1 = .ok cs := by
  induction pending generalizing b position t us ts with
  | nil =>
    obtain rfl : ts = [] := (Except.ok.inj hts).symm
    obtain ⟨b₁, hs, hrest⟩ := Option.bind_eq_some_iff.1 hsteps
    have hle := Builder.depth_le_of_finish (Builder.step_reads hb hs) hrest hfinish
    obtain rfl : b₁ = b' := Option.some.inj hrest
    rw [run]
    simp only [hs]
    rw [if_neg (by omega)]
    exact conclude_ok_iff.2 hfinish
  | cons x rest ih =>
    obtain ⟨t', ts', hx, hrest, rfl⟩ := mapM_token_cons hts
    obtain ⟨b₁, hs, hnext⟩ := Option.bind_eq_some_iff.1 hsteps
    have hreads := Builder.step_reads hb hs
    -- what is open now will be part of the tree, and the tree keeps to the limit
    have hle := Builder.depth_le_of_finish hreads hnext hfinish
    rw [run]
    simp only [hs, hx]
    rw [if_neg (by omega)]
    exact ih hreads hrest hnext

theorem sequence_end (m : Nat) :
    ({ current := none, pending := [], maxDepth := m } : Parser).sequence =
      if m < 1 then fail { current := none, pending := [], maxDepth := m } {} (.tooDeep m)
      else conclude { current := none, pending := [], maxDepth := m } {} :=
  rfl

theorem sequence_token (m position : Nat) (t : Token) (pending : List Lexeme) :
    ({ current := some (position, t), pending, maxDepth := m } : Parser).sequence =
      if m < 1 then fail { current := some (position, t), pending, maxDepth := m } {} (.tooDeep m)
      else run { current := some (position, t), pending, maxDepth := m } {} position t pending :=
  rfl

theorem sequence_ok {xs : List Lexeme} {p : Parser} {m : Nat} {cs : List Clause}
    (hp : ofLexemes xs = .ok p) (h : ({ p with maxDepth := m }.sequence).1 = .ok cs) :
    ∃ q : QueryForm, xs.mapM Lexeme.token = .ok q.tokens ∧ q.clauses = cs := by
  have hread : ∀ {ts b}, xs.mapM Lexeme.token = .ok ts → Builder.steps {} ts = some b →
      b.finish = some cs →
      ∃ q : QueryForm, xs.mapM Lexeme.token = .ok q.tokens ∧ q.clauses = cs := by
    intro ts b hts hb hfinish
    obtain ⟨q, rfl, rfl⟩ := Builder.finish_iff.1 ⟨b, hb, hfinish⟩
    exact ⟨q, hts, rfl⟩
  cases xs with
  | nil =>
    obtain rfl := Except.ok.inj hp
    rw [sequence_end] at h
    split at h
    · cases h
    · exact hread rfl rfl (conclude_ok_iff.1 h)
  | cons x pending =>
    rw [ofLexemes] at hp
    cases hx : x.token with
    | error e => simp only [hx] at hp; cases hp
    | ok t =>
      simp only [hx] at hp
      obtain rfl := Except.ok.inj hp
      rw [sequence_token] at h
      split at h
      · cases h
      · obtain ⟨ts, b, hts, hb, hfinish⟩ := run_ok h
        refine hread ?_ hb hfinish
        rw [List.mapM_cons, hx, hts]
        rfl

theorem sequence_of_form {xs : List Lexeme} {q : QueryForm} {m : Nat}
    (hq : xs.mapM Lexeme.token = .ok q.tokens) (hm : q.root.depth ≤ m) :
    ∃ p, ofLexemes xs = .ok p ∧ ({ p with maxDepth := m }.sequence).1 = .ok q.clauses := by
  obtain ⟨b, hb, hfinish⟩ := Builder.finish_iff.2 ⟨q, rfl, rfl⟩
  rw [q.root_eq] at hm
  have hpos : ¬ m < 1 := by
    rw [Group.depth_ofSequence] at hm
    omega
  cases xs with
  | nil =>
    obtain htokens : [] = q.tokens := Except.ok.inj hq
    rw [← htokens] at hb
    obtain rfl := Option.some.inj hb
    refine ⟨_, rfl, ?_⟩
    rw [sequence_end, if_neg hpos]
    exact conclude_ok_iff.2 hfinish
  | cons x pending =>
    obtain ⟨t, ts, hx, hpending, htokens⟩ := mapM_token_cons hq
    rw [htokens] at hb
    refine ⟨{ current := some (x.start, t), pending }, by rw [ofLexemes, hx], ?_⟩
    rw [sequence_token, if_neg hpos]
    exact run_of_steps rfl Builder.reads_start hpending hb hfinish hm

/-- The parser's answer is that of its sequence, measured once more. -/
theorem parse_eq (p : Parser) :
    (p.parse).1 = match (p.sequence).1 with
      | .error e => .error e
      | .ok cs =>
        if p.maxDepth < (Group.ofSequence cs).depth then .error (.tooDeep p.maxDepth)
        else .ok (Group.ofSequence cs) := by
  unfold parse
  rcases p.sequence with ⟨e | cs, p'⟩
  · rfl
  · dsimp only
    split <;> rfl

theorem parse_ok_iff {p : Parser} {root : Group} :
    (p.parse).1 = .ok root ↔
      ∃ cs, (p.sequence).1 = .ok cs ∧ Group.ofSequence cs = root ∧ root.depth ≤ p.maxDepth := by
  rw [parse_eq]
  cases (p.sequence).1 with
  | error e => simp
  | ok cs =>
    dsimp only
    split
    · rename_i hlt
      refine ⟨fun h => (by cases h), ?_⟩
      rintro ⟨cs', hcs, rfl, hle⟩
      obtain rfl := Except.ok.inj hcs
      omega
    · rename_i hle
      constructor
      · intro h
        obtain rfl := Except.ok.inj h
        exact ⟨cs, rfl, rfl, Nat.not_lt.1 hle⟩
      · rintro ⟨cs', hcs, rfl, -⟩
        rw [Except.ok.inj hcs]

end Parser

/-- A text is read under a limit exactly when its tokens are those of a form whose tree keeps to the
limit, and it is read to that tree. -/
theorem parseWithin_ok_iff {maxDepth : Nat} {text : String} {root : Group} :
    parseWithin maxDepth text = .ok root ↔
      ∃ q : QueryForm, tokenize text = .ok q.tokens ∧ q.root = root ∧ root.depth ≤ maxDepth := by
  unfold parseWithin Parser.ofText
  constructor
  · intro h
    cases hp : Parser.ofLexemes (Lexer.ofText text).lexemes with
    | error e => rw [hp] at h; cases h
    | ok p =>
      rw [hp] at h
      obtain ⟨cs, hcs, hroot, hle⟩ := Parser.parse_ok_iff.1 h
      obtain ⟨q, hq, rfl⟩ := Parser.sequence_ok hp hcs
      exact ⟨q, hq, q.root_eq.trans hroot, hle⟩
  · rintro ⟨q, hq, rfl, hle⟩
    obtain ⟨p, hp, hcs⟩ := Parser.sequence_of_form hq hle
    rw [hp]
    exact Parser.parse_ok_iff.2 ⟨q.clauses, hcs, q.root_eq.symm, hle⟩

/-- When the limit is not below the number of tokens, the end of the text counted as one, a text is
read exactly when its tokens have a derivation. There is only one then, and the tree is its own. -/
theorem parseWithin_derivation {maxDepth : Nat} {text : String}
    (h : ∀ ts, tokenize text = .ok ts → ts.length + 1 ≤ maxDepth) (root : Group) :
    parseWithin maxDepth text = .ok root ↔
      ∃ q : QueryForm, tokenize text = .ok q.tokens ∧ q.root = root ∧
        ∀ q' : QueryForm, q'.tokens = q.tokens → q' = q := by
  rw [parseWithin_ok_iff]
  constructor
  · rintro ⟨q, hq, hroot, -⟩
    exact ⟨q, hq, hroot, fun q' hq' => QueryForm.unique hq'⟩
  · rintro ⟨q, hq, rfl, -⟩
    exact ⟨q, hq, rfl, Nat.le_trans q.depth_le (h _ hq)⟩

/-- The disjunction becomes the group in parentheses and the conjunction the whole query; the sign
and the negation stay with their clauses, the star leaves the range open, and the comparison has only
an upper bound. -/
theorem parseWithin_derivation_lifted :
    let text := "-a:(b OR c) AND NOT [1 TO *] AND d:<-2"
    (∀ ts, tokenize text = .ok ts → ts.length + 1 ≤ 22) ∧
      parseWithin 22 text = .ok
        { op := some .and
          children :=
            [.group { field := some "a", occur := some .prohibited } (some .or) true
                [.leaf {} (.term "b" false), .leaf {} (.term "c" false)],
              .leaf { negated := true } (.range
                { min := some "1", minInclusive := some true, maxInclusive := some true }),
              .leaf { field := some "d" } (.range
                { max := some "-2", maxInclusive := some false })] } := by
  intro text
  have htokens : tokenize text = .ok
      [.sign .prohibited, .term "a", .colon, .openParen, .term "b", .join .or, .term "c",
        .closeParen, .join .and, .not, .openRange true, .term "1", .to, .term "*",
        .closeRange true, .join .and, .term "d", .colon, .compare .lt, .sign .prohibited,
        .term "2"] := by
    decide +kernel
  have hlimit : ∀ ts, tokenize text = .ok ts → ts.length + 1 ≤ 22 := by
    intro ts hts
    rw [htokens] at hts
    cases hts
    decide
  -- the derivation, from its leaves up
  let b : ClauseForm := .value [] none (.term "b")
  let c : ClauseForm := .value [] none (.term "c")
  let group : ClauseForm := .group [.sign .prohibited] (some ⟨"a", [], by decide, by decide⟩)
    (.cons (.or (.last b) (.last (.last c))) .nil)
  let range : ClauseForm := .value [.not] none (.range true (.term "1") (.term "*") true)
  let less : ClauseForm := .value [] (some ⟨"d", [], by decide, by decide⟩)
    (.compare .lt (.signed .prohibited "2" (by decide)))
  let q : QueryForm := .cons (.last (.and group (.and range (.last less)))) .nil
  refine ⟨hlimit, (parseWithin_derivation hlimit _).2 ⟨q, htokens, ?_, ?_⟩⟩
  · rfl
  · exact fun q' hq' => QueryForm.unique hq'

end SearchQuery
