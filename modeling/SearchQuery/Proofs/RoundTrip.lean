import SearchQuery.Proofs.Acceptance
import SearchQuery.Proofs.Explicit
import SearchQuery.Query

/-!
# SearchQuery.Proofs.RoundTrip

A tree that was read from a text is printed as a text that is read to the same tree.

The printer puts in no parentheses of its own and no escapes in words. It is right because trees
that come from a text have few shapes: a form is printed clause by clause, and what is printed are
the tokens of another form, its canonical one.

* `quotesBound`           — a phrase is used where only words are printed back.
* `QueryForm.canonical`   — at most one sign and one negation in front of a clause, and comparisons
  written as ranges.
* `QueryForm.plain`       — from the tokens of a text to what its derivation needs for printing.
* `QueryForm.lexes`       — the printed text has the tokens of the canonical form.
* `parse_text_explicit`   — reading, printing and reading again.
-/

namespace SearchQuery

open Clause

/-! ## Phrases that the printer loses -/

/-- Whether `t` begins a bound or a presence test, and what comes next in it is a phrase. -/
def quotedAfter : Token → List Token → Bool
  | .openRange _, .phrase _ :: _ => true
  | .to, .phrase _ :: _ => true
  | .compare _, .phrase _ :: _ => true
  | .term field, .colon :: .phrase _ :: _ => (presence? field).isSome
  | _, _ => false

/-- Whether a phrase is used as a bound or as the field of a presence test. -/
def quotesBound : List Token → Bool
  | [] => false
  | t :: ts => quotedAfter t ts || quotesBound ts

/-! ## Canonical forms -/

/-- The marks in front of a clause as the printer writes them. -/
def Marks.leads (m : Marks) : List Lead :=
  (m.occur.map Lead.sign).toList ++ if m.negated then [.not] else []

def FieldHead.bare (h : FieldHead) : FieldHead where
  name := h.name
  inner := []
  ordinary := h.ordinary
  signFirst := by simp

def ValueForm.canonical : ValueForm → ValueForm
  | .compare .gt bound => .range false bound (.term "*") true
  | .compare .ge bound => .range true bound (.term "*") true
  | .compare .lt bound => .range true (.term "*") bound false
  | .compare .le bound => .range true (.term "*") bound true
  | v => v

mutual

def QueryForm.canonical : QueryForm → QueryForm
  | .nil => .nil
  | .cons first rest => .cons first.canonical rest.canonical

def OrForm.canonical : OrForm → OrForm
  | .last operand => .last operand.canonical
  | .or operand rest => .or operand.canonical rest.canonical

def AndForm.canonical : AndForm → AndForm
  | .last operand => .last operand.canonical
  | .and operand rest => .and operand.canonical rest.canonical

def ClauseForm.canonical : ClauseForm → ClauseForm
  | .group leads head body =>
    .group (headMarks leads head).leads (head.map FieldHead.bare) body.canonical
  | .value leads head value =>
    .value (headMarks leads head).leads (head.map FieldHead.bare) value.canonical
  | .presence leads presence target => .presence (headMarks leads none).leads presence target

end

theorem lastSign_leads (m : Marks) : lastSign m.leads = m.occur := by
  obtain ⟨field, negated, occur⟩ := m
  rcases occur with _ | o <;> rcases negated with _ | _ <;> rfl

theorem not_mem_leads (m : Marks) : decide (Lead.not ∈ m.leads) = m.negated := by
  obtain ⟨field, negated, occur⟩ := m
  rcases occur with _ | o <;> rcases negated with _ | _ <;> simp [Marks.leads]

theorem headMarks_canonical (ls : List Lead) (head : Option FieldHead) :
    headMarks (headMarks ls head).leads (head.map FieldHead.bare) = headMarks ls head := by
  rw [headMarks, lastSign_leads, not_mem_leads]
  cases head with
  | none => simp [headMarks]
  | some h => simp [headMarks, FieldHead.bare, lastSign]

theorem ValueForm.leaf_canonical (v : ValueForm) : v.canonical.leaf = v.leaf.explicit := by
  cases v with
  | compare c b =>
    cases c <;> simp [ValueForm.canonical, ValueForm.leaf, Leaf.explicit, Range.explicit,
      BoundForm.bound]
  | _ => rfl

mutual

theorem QueryForm.clauses_canonical : (q : QueryForm) →
    q.canonical.clauses = explicitAll q.clauses
  | .nil => by rw [QueryForm.canonical, QueryForm.clauses, explicitAll]
  | .cons o q => by
    rw [QueryForm.canonical, QueryForm.clauses, QueryForm.clauses, explicitAll, o.clause_eq,
      o.canonical.clause_eq, o.operands_canonical, q.clauses_canonical, explicit_joinOperands]

theorem OrForm.operands_canonical : (o : OrForm) →
    o.canonical.operands = explicitAll o.operands
  | .last a => by
    rw [OrForm.canonical, OrForm.operands, OrForm.operands, explicitAll, explicitAll, a.clause_eq,
      a.canonical.clause_eq, a.operands_canonical, explicit_joinOperands]
  | .or a o => by
    rw [OrForm.canonical, OrForm.operands, OrForm.operands, explicitAll, a.clause_eq,
      a.canonical.clause_eq, a.operands_canonical, o.operands_canonical, explicit_joinOperands]

theorem AndForm.operands_canonical : (a : AndForm) →
    a.canonical.operands = explicitAll a.operands
  | .last c => by
    rw [AndForm.canonical, AndForm.operands, AndForm.operands, explicitAll, explicitAll,
      c.clause_canonical]
  | .and c a => by
    rw [AndForm.canonical, AndForm.operands, AndForm.operands, explicitAll, c.clause_canonical,
      a.operands_canonical]

theorem ClauseForm.clause_canonical : (c : ClauseForm) → c.canonical.clause = c.clause.explicit
  | .group ls head q => by
    have hq := explicit_ofSequence q.clauses
    rw [← q.clauses_canonical] at hq
    rw [ClauseForm.canonical, ClauseForm.clause, ClauseForm.clause, headMarks_canonical, q.root_eq,
      q.canonical.root_eq, ← hq, Clause.explicit]
    rfl
  | .value ls head v => by
    rw [ClauseForm.canonical, ClauseForm.clause, ClauseForm.clause, headMarks_canonical,
      v.leaf_canonical, Clause.explicit]
  | .presence ls p target => by
    have hmarks := headMarks_canonical ls none
    rw [Option.map_none] at hmarks
    rw [ClauseForm.canonical, ClauseForm.clause, ClauseForm.clause, hmarks, Clause.explicit]
    rfl

end

theorem QueryForm.root_canonical (q : QueryForm) : q.canonical.root = q.root.explicit := by
  rw [q.root_eq, q.canonical.root_eq, q.clauses_canonical, explicit_ofSequence]

/-! ## What printing needs -/

/-- A bound that is printed as it was written. -/
def BoundForm.Plain : BoundForm → Prop
  | .term s => Rereads false s
  | .phrase _ => False
  | .signed _ s _ => Rereads false s

def ValueForm.Plain (afterColon : Bool) : ValueForm → Prop
  | .term s => Rereads afterColon s
  | .phrase _ => True
  | .range _ min max _ => min.Plain ∧ max.Plain
  | .compare _ bound => bound.Plain

def TargetForm.Plain : TargetForm → Prop
  | .term s => Rereads true s
  | .phrase _ => False

def PlainHead (head : Option FieldHead) : Prop :=
  ∀ h ∈ head, Rereads false h.name

mutual

def QueryForm.Plain : QueryForm → Prop
  | .nil => True
  | .cons first rest => first.Plain ∧ rest.Plain

def OrForm.Plain : OrForm → Prop
  | .last operand => operand.Plain
  | .or operand rest => operand.Plain ∧ rest.Plain

def AndForm.Plain : AndForm → Prop
  | .last operand => operand.Plain
  | .and operand rest => operand.Plain ∧ rest.Plain

def ClauseForm.Plain : ClauseForm → Prop
  | .group _ head body => PlainHead head ∧ body.Plain
  | .value _ head value => PlainHead head ∧ value.Plain head.isSome
  | .presence _ presence target => Rereads false presence.keyword ∧ target.Plain

end

/-- Tokens that can be printed and read again, where `afterColon` tells whether a colon comes before
them. -/
structure Printable (afterColon : Bool) (ts : List Token) : Prop where
  rereads : RereadAll afterColon ts
  unquoted : quotesBound ts = false

namespace Printable

variable {afterColon : Bool} {t : Token} {ts : List Token}

theorem tail (h : Printable afterColon (t :: ts)) : Printable (t == .colon) ts :=
  ⟨h.rereads.2, (Bool.or_eq_false_iff.1 h.unquoted).2⟩

theorem head (h : Printable afterColon (t :: ts)) : quotedAfter t ts = false :=
  (Bool.or_eq_false_iff.1 h.unquoted).1

theorem word {s : String} (h : Printable afterColon (.term s :: ts)) : Rereads afterColon s :=
  h.rereads.1 s rfl

theorem weaken (h : Printable false ts) : Printable afterColon ts := by
  cases afterColon with
  | true => exact ⟨h.rereads.afterColon, h.unquoted⟩
  | false => exact h

theorem leads {ls : List Lead} (h : Printable afterColon (leadTokens ls ++ ts)) :
    Printable afterColon ts := by
  induction ls generalizing afterColon with
  | nil => exact h
  | cons l ls ih =>
    have htail : Printable false (leadTokens ls ++ ts) := by
      cases l with
      | sign o => exact h.tail
      | not => exact h.tail
    exact (ih htail).weaken

theorem fieldHead {field : Option FieldHead} (h : Printable false (headTokens field ++ ts)) :
    PlainHead field ∧ Printable field.isSome ts := by
  cases field with
  | none =>
    refine ⟨?_, h⟩
    intro f hf
    cases hf
  | some f =>
    have hinner : Printable true (leadTokens f.inner ++ ts) := h.tail.tail
    refine ⟨?_, hinner.leads⟩
    rintro f' ⟨⟩
    exact h.word

/-- After a token with which a bound begins. -/
theorem bound {b : BoundForm} (ht : ∀ s, quotedAfter t (.phrase s :: ts) = true)
    (hcolon : (t == .colon) = false) (h : Printable afterColon (t :: (b.tokens ++ ts))) :
    b.Plain ∧ Printable false ts := by
  have htail := h.tail
  rw [hcolon] at htail
  cases b with
  | term s => exact ⟨htail.word, htail.tail⟩
  | phrase s =>
    have hquoted := h.head
    rw [show quotedAfter t ((BoundForm.phrase s).tokens ++ ts) = true from ht s] at hquoted
    cases hquoted
  | signed o s hs => exact ⟨htail.tail.word, htail.tail.tail⟩

theorem value {v : ValueForm} (h : Printable afterColon (v.tokens ++ ts)) :
    v.Plain afterColon ∧ Printable false ts := by
  cases v with
  | term s => exact ⟨h.word, h.tail⟩
  | phrase s => exact ⟨trivial, h.tail⟩
  | range i min max j =>
    simp only [ValueForm.tokens, List.cons_append, List.append_assoc] at h
    obtain ⟨hmin, hto⟩ := bound (fun _ => rfl) rfl h
    obtain ⟨hmax, hclose⟩ := bound (fun _ => rfl) rfl hto
    exact ⟨⟨hmin, hmax⟩, hclose.tail⟩
  | compare c b => exact bound (fun _ => rfl) rfl h

end Printable

mutual

theorem QueryForm.plain : ∀ (q : QueryForm) {ts : List Token}, Printable false (q.tokens ++ ts) →
    q.Plain ∧ Printable false ts
  | .nil, ts, h => by
    rw [QueryForm.tokens] at h
    exact ⟨by rw [QueryForm.Plain]; trivial, h⟩
  | .cons o q, ts, h => by
    rw [QueryForm.tokens, List.append_assoc] at h
    obtain ⟨ho, hrest⟩ := o.plain h
    obtain ⟨hq, hts⟩ := q.plain hrest
    exact ⟨by rw [QueryForm.Plain]; exact ⟨ho, hq⟩, hts⟩

theorem OrForm.plain : ∀ (o : OrForm) {ts : List Token}, Printable false (o.tokens ++ ts) →
    o.Plain ∧ Printable false ts
  | .last a, ts, h => by
    rw [OrForm.tokens] at h
    rw [OrForm.Plain]
    exact a.plain h
  | .or a o, ts, h => by
    rw [OrForm.tokens, List.append_assoc] at h
    obtain ⟨ha, hrest⟩ := a.plain h
    obtain ⟨ho, hts⟩ := o.plain hrest.tail
    exact ⟨by rw [OrForm.Plain]; exact ⟨ha, ho⟩, hts⟩

theorem AndForm.plain : ∀ (a : AndForm) {ts : List Token}, Printable false (a.tokens ++ ts) →
    a.Plain ∧ Printable false ts
  | .last c, ts, h => by
    rw [AndForm.tokens] at h
    rw [AndForm.Plain]
    exact c.plain h
  | .and c a, ts, h => by
    rw [AndForm.tokens, List.append_assoc] at h
    obtain ⟨hc, hrest⟩ := c.plain h
    obtain ⟨ha, hts⟩ := a.plain hrest.tail
    exact ⟨by rw [AndForm.Plain]; exact ⟨hc, ha⟩, hts⟩

theorem ClauseForm.plain : ∀ (c : ClauseForm) {ts : List Token}, Printable false (c.tokens ++ ts) →
    c.Plain ∧ Printable false ts
  | .group ls head q, ts, h => by
    simp only [ClauseForm.tokens, List.append_assoc, List.cons_append, List.nil_append] at h
    obtain ⟨hhead, hopen⟩ := h.leads.fieldHead
    obtain ⟨hq, hclose⟩ := q.plain hopen.tail
    exact ⟨by rw [ClauseForm.Plain]; exact ⟨hhead, hq⟩, hclose.tail⟩
  | .value ls head v, ts, h => by
    simp only [ClauseForm.tokens, List.append_assoc] at h
    obtain ⟨hhead, hvalue⟩ := h.leads.fieldHead
    obtain ⟨hv, hts⟩ := hvalue.value
    exact ⟨by rw [ClauseForm.Plain]; exact ⟨hhead, hv⟩, hts⟩
  | .presence ls p target, ts, h => by
    simp only [ClauseForm.tokens, List.append_assoc, List.cons_append, List.nil_append] at h
    have hkeyword := h.leads
    cases target with
    | term s =>
      exact ⟨by rw [ClauseForm.Plain]; exact ⟨hkeyword.word, hkeyword.tail.tail.word⟩,
        hkeyword.tail.tail.tail⟩
    | phrase s =>
      -- the printer would leave out the quotes
      have hquoted : (presence? p.keyword).isSome = false := hkeyword.head
      rw [presence?_keyword] at hquoted
      cases hquoted

end

/-! ## Texts -/

theorem textList_cons (sep : String) (c : Clause) {cs : List Clause} (h : cs ≠ []) :
    textList sep (c :: cs) = c.text ++ sep ++ textList sep cs := by
  cases cs with
  | nil => exact absurd rfl h
  | cons d cs => rw [textList]; simp

theorem textList_singleton (sep : String) (c : Clause) : textList sep [c] = c.text := by
  rw [textList]

/-- A group without marks and parentheses is printed as its clauses. -/
theorem text_bare_group (op : Option Connective) (cs : List Clause) :
    (Clause.group {} op false cs).text = textList (separator op) cs := by
  rw [Clause.text]
  simp [Marks.leadText, Marks.fieldText]

theorem text_joinOperands (op : Connective) (cs : List Clause) :
    (joinOperands op cs).text = textList (separator (some op)) cs := by
  rw [joinOperands.eq_def]
  split
  · rw [textList_singleton]
  · exact text_bare_group (some op) cs

theorem textList_ofSequence (cs : List Clause) :
    textList (separator (Group.ofSequence cs).op) (Group.ofSequence cs).children =
      textList (separator none) cs := by
  rw [Group.ofSequence.eq_def]
  split
  · rename_i op children
    rw [textList_singleton]
    exact (text_bare_group op children).symm
  · rfl

theorem QueryForm.text_root (q : QueryForm) :
    q.root.text = textList (separator none) q.clauses := by
  rw [Group.text, q.toClause_root, text_bare_group, q.root_eq, textList_ofSequence]

theorem ClauseForm.text_group (ls : List Lead) (head : Option FieldHead) (q : QueryForm) :
    (ClauseForm.group ls head q).clause.text =
      (headMarks ls head).leadText ++ (headMarks ls head).fieldText ++
        ("(" ++ textList (separator none) q.clauses ++ ")") := by
  rw [ClauseForm.clause, Clause.text, q.root_eq, textList_ofSequence]
  rfl

theorem ValueForm.text_leaf (v : ValueForm) (m : Marks) :
    v.leaf.text m = m.fieldText ++ v.leaf.text {} := by
  have hempty : Marks.fieldText {} = "" := rfl
  cases v with
  | compare c b => simp [ValueForm.leaf_compare, Leaf.text, hempty]
  | _ => simp [ValueForm.leaf, Leaf.text, hempty]

/-! ## Printed texts read again -/

section Lexes

variable {afterColon : Bool} {rest : List Char} {ts : List Token}

theorem lexes_leads (m : Marks) (h : LexesTo false rest ts) :
    LexesTo false (m.leadText.toList ++ rest) (leadTokens m.leads ++ ts) := by
  have hnot : LexesTo false ((if m.negated then "NOT " else "").toList ++ rest)
      (leadTokens (if m.negated then [.not] else []) ++ ts) := by
    cases m.negated with
    | true => exact LexesTo.not (endsWord_cons rest (by decide)) (LexesTo.blank (by decide) h)
    | false => exact h
  rw [Marks.leadText, Marks.leads, String.toList_append, List.append_assoc]
  cases m.occur with
  | none => exact hnot
  | some o => exact LexesTo.sign o hnot

theorem lexes_field {head : Option FieldHead} (hhead : PlainHead head) (ls : List Lead)
    (h : LexesTo head.isSome rest ts) :
    LexesTo false ((headMarks ls head).fieldText.toList ++ rest)
      (headTokens (head.map FieldHead.bare) ++ ts) := by
  cases head with
  | none => exact h
  | some f =>
    have htext : (headMarks ls (some f)).fieldText = f.name ++ ":" := rfl
    rw [htext, String.toList_append, List.append_assoc]
    refine LexesTo.word (hhead f rfl) (endsWord_cons rest (by decide)) ?_
    exact LexesTo.token (by decide) rfl h

theorem BoundForm.lexes {b : BoundForm} (hb : b.Plain) (hrest : EndsWord rest)
    (h : LexesTo false rest ts) :
    LexesTo false ((boundText b.bound).toList ++ rest) (b.tokens ++ ts) := by
  cases b with
  | term s =>
    have htext : boundText (BoundForm.term s).bound = s := by
      by_cases hs : s = "*"
      · simp [BoundForm.bound, boundText, hs]
      · simp [BoundForm.bound, boundText, hs]
    rw [htext]
    exact LexesTo.word hb hrest h
  | phrase s => exact hb.elim
  | signed o s hs =>
    have htext : boundText (BoundForm.signed o s hs).bound = o.text ++ s := rfl
    rw [htext, String.toList_append, List.append_assoc]
    exact LexesTo.sign o (LexesTo.word hb hrest h)

theorem rereads_star : Rereads false "*" := by
  refine ⟨'*', [], rfl, by decide, fun rest hrest => ?_⟩
  show scanWord (['*'] ++ rest) = _
  have hstar : ∀ c ∈ ['*'], isWordChar c = true := List.all_eq_true.1 rfl
  rw [scanWord_of_readWord (readWord_append hstar hrest) (List.cons_ne_nil _ _)]
  rfl

theorem lexes_range {r : Range} {min max : BoundForm} (hmin : r.min = min.bound)
    (hmax : r.max = max.bound) (hminPlain : min.Plain) (hmaxPlain : max.Plain)
    (h : LexesTo false rest ts) :
    LexesTo afterColon (r.text.toList ++ rest)
      ((ValueForm.range (r.minInclusive.getD true) min max (r.maxInclusive.getD true)).tokens ++
        ts) := by
  -- each bracket as its flag decides, from the last one back
  have hclose : LexesTo false ((if r.maxInclusive = some false then "\x7d" else "]").toList ++ rest)
      (.closeRange (r.maxInclusive.getD true) :: ts) := by
    rcases r.maxInclusive with _ | _ | _ <;> exact LexesTo.token (by decide) rfl h
  have hends : EndsWord ((if r.maxInclusive = some false then "\x7d" else "]").toList ++ rest) := by
    rcases r.maxInclusive with _ | _ | _ <;> exact endsWord_cons rest (by decide)
  have hto : ∀ cs, EndsWord (" TO ".toList ++ cs) := fun cs => endsWord_cons _ (by decide)
  have hupper := BoundForm.lexes hmaxPlain hends hclose
  have hspaced : ∀ {cs us}, LexesTo false cs us →
      LexesTo false (" TO ".toList ++ cs) (.to :: us) := fun {cs us} hcs =>
    LexesTo.blank (by decide) (LexesTo.rangeTo (endsWord_cons cs (by decide))
      (LexesTo.blank (by decide) hcs))
  have hlower := BoundForm.lexes hminPlain (hto _) (hspaced hupper)
  have hopen : ∀ {cs us}, LexesTo false cs us →
      LexesTo afterColon ((if r.minInclusive = some false then "\x7b" else "[").toList ++ cs)
        (.openRange (r.minInclusive.getD true) :: us) := by
    intro cs us hcs
    rcases r.minInclusive with _ | _ | _ <;> exact LexesTo.token (by decide) rfl hcs
  have := hopen hlower
  rw [← hmin, ← hmax] at this
  simpa [Range.text, ValueForm.tokens] using this

theorem ValueForm.lexes {v : ValueForm} (hv : v.Plain afterColon) (hrest : EndsWord rest)
    (h : LexesTo false rest ts) :
    LexesTo afterColon ((v.leaf.text {}).toList ++ rest) (v.canonical.tokens ++ ts) := by
  have hfield : ∀ s, (Marks.fieldText {}) ++ s = s := fun s => String.empty_append
  cases v with
  | term s =>
    rw [ValueForm.leaf, Leaf.text, hfield]
    exact LexesTo.word hv hrest h
  | phrase s =>
    rw [ValueForm.leaf, Leaf.text, hfield]
    exact LexesTo.phrase s h
  | range i min max j =>
    rw [ValueForm.leaf, Leaf.text, hfield]
    exact lexes_range rfl rfl hv.1 hv.2 h
  | compare c b =>
    rw [ValueForm.leaf_compare, Leaf.text, hfield]
    have hopen : (BoundForm.term "*").bound = none := rfl
    cases c with
    | gt => exact lexes_range rfl hopen.symm hv rereads_star h
    | ge => exact lexes_range rfl hopen.symm hv rereads_star h
    | lt => exact lexes_range hopen.symm rfl rereads_star hv h
    | le => exact lexes_range hopen.symm rfl rereads_star hv h

end Lexes

theorem endsWord_separator (op : Option Connective) (cs : List Char) :
    EndsWord ((separator op).toList ++ cs) := by
  rcases op with _ | _ | _ <;> exact endsWord_cons _ (by decide)

/-- A connective between blanks. -/
theorem lexes_separator (op : Connective) (h : LexesTo false rest ts) :
    LexesTo false ((separator (some op)).toList ++ rest) (.join op :: ts) := by
  have hword : LexesTo false (op.text.toList ++ ' ' :: rest) (.join op :: ts) :=
    LexesTo.join op (endsWord_cons rest (by decide)) (LexesTo.blank (by decide) h)
  cases op with
  | and => exact LexesTo.blank (by decide) hword
  | or => exact LexesTo.blank (by decide) hword

mutual

theorem QueryForm.lexes : ∀ (q : QueryForm), q.Plain → ∀ {rest : List Char} {ts : List Token},
    EndsWord rest → LexesTo false rest ts →
    LexesTo false ((textList (separator none) q.clauses).toList ++ rest) (q.canonical.tokens ++ ts)
  | .nil, _, rest, ts, _, h => by
    rw [QueryForm.clauses, textList, QueryForm.canonical, QueryForm.tokens]
    exact h
  | .cons o .nil, hq, rest, ts, hrest, h => by
    rw [QueryForm.Plain] at hq
    rw [QueryForm.clauses, QueryForm.clauses, textList_singleton, o.clause_eq, text_joinOperands,
      QueryForm.canonical, QueryForm.canonical, QueryForm.tokens, QueryForm.tokens, List.append_nil]
    exact o.lexes hq.1 hrest h
  | .cons o (.cons o' q), hq, rest, ts, hrest, h => by
    rw [QueryForm.Plain] at hq
    have hne : (QueryForm.cons o' q).clauses ≠ [] := by simp [QueryForm.clauses]
    -- a blank ends the last word of the first clause and is skipped before the next
    have hnext := QueryForm.lexes (.cons o' q) hq.2 hrest h
    rw [QueryForm.clauses, textList_cons _ _ hne, o.clause_eq, text_joinOperands,
      QueryForm.canonical, QueryForm.tokens, List.append_assoc, String.toList_append, String.toList_append,
      List.append_assoc, List.append_assoc]
    exact o.lexes hq.1 (endsWord_separator none _) (LexesTo.blank (by decide) hnext)

theorem OrForm.lexes : ∀ (o : OrForm), o.Plain → ∀ {rest : List Char} {ts : List Token},
    EndsWord rest → LexesTo false rest ts →
    LexesTo false ((textList (separator (some .or)) o.operands).toList ++ rest)
      (o.canonical.tokens ++ ts)
  | .last a, ho, rest, ts, hrest, h => by
    rw [OrForm.Plain] at ho
    rw [OrForm.operands, textList_singleton, a.clause_eq, text_joinOperands, OrForm.canonical,
      OrForm.tokens]
    exact a.lexes ho hrest h
  | .or a o, ho, rest, ts, hrest, h => by
    rw [OrForm.Plain] at ho
    have hnext := o.lexes ho.2 hrest h
    rw [OrForm.operands, textList_cons _ _ o.operands_ne_nil, a.clause_eq, text_joinOperands,
      OrForm.canonical, OrForm.tokens, List.append_assoc, String.toList_append, String.toList_append,
      List.append_assoc, List.append_assoc]
    exact a.lexes ho.1 (endsWord_separator _ _) (lexes_separator .or hnext)

theorem AndForm.lexes : ∀ (a : AndForm), a.Plain → ∀ {rest : List Char} {ts : List Token},
    EndsWord rest → LexesTo false rest ts →
    LexesTo false ((textList (separator (some .and)) a.operands).toList ++ rest)
      (a.canonical.tokens ++ ts)
  | .last c, ha, rest, ts, hrest, h => by
    rw [AndForm.Plain] at ha
    rw [AndForm.operands, textList_singleton, AndForm.canonical, AndForm.tokens]
    exact c.lexes ha hrest h
  | .and c a, ha, rest, ts, hrest, h => by
    rw [AndForm.Plain] at ha
    have hnext := a.lexes ha.2 hrest h
    rw [AndForm.operands, textList_cons _ _ a.operands_ne_nil, AndForm.canonical, AndForm.tokens,
      List.append_assoc, String.toList_append, String.toList_append, List.append_assoc,
      List.append_assoc]
    exact c.lexes ha.1 (endsWord_separator _ _) (lexes_separator .and hnext)

theorem ClauseForm.lexes : ∀ (c : ClauseForm), c.Plain → ∀ {rest : List Char} {ts : List Token},
    EndsWord rest → LexesTo false rest ts →
    LexesTo false (c.clause.text.toList ++ rest) (c.canonical.tokens ++ ts)
  | .group ls head q, hc, rest, ts, hrest, h => by
    rw [ClauseForm.Plain] at hc
    have hclose : LexesTo false (")".toList ++ rest) (.closeParen :: ts) :=
      LexesTo.token (by decide) rfl h
    have hends : EndsWord (")".toList ++ rest) := endsWord_cons rest (by decide)
    have hopen : LexesTo head.isSome
        ("(".toList ++ ((textList (separator none) q.clauses).toList ++ (")".toList ++ rest)))
        (.openParen :: (q.canonical.tokens ++ .closeParen :: ts)) :=
      LexesTo.token (by decide) rfl (q.lexes hc.2 hends hclose)
    have := lexes_leads (headMarks ls head) (lexes_field hc.1 ls hopen)
    rw [ClauseForm.text_group, ClauseForm.canonical, ClauseForm.tokens]
    simpa only [String.toList_append, List.append_assoc, List.cons_append, List.nil_append]
      using this
  | .value ls head v, hc, rest, ts, hrest, h => by
    rw [ClauseForm.Plain] at hc
    have := lexes_leads (headMarks ls head) (lexes_field hc.1 ls (v.lexes hc.2 hrest h))
    rw [ClauseForm.clause, Clause.text, v.text_leaf, ClauseForm.canonical, ClauseForm.tokens]
    simpa only [String.toList_append, List.append_assoc] using this
  | .presence ls p target, hc, rest, ts, hrest, h => by
    rw [ClauseForm.Plain] at hc
    obtain ⟨hkeyword, htarget⟩ := hc
    cases target with
    | phrase s => exact htarget.elim
    | term s =>
      have hcolon : LexesTo false (":".toList ++ (s.toList ++ rest)) (.colon :: .term s :: ts) :=
        LexesTo.token (by decide) rfl (LexesTo.word htarget hrest h)
      have hends : EndsWord (":".toList ++ (s.toList ++ rest)) := endsWord_cons _ (by decide)
      have := lexes_leads (headMarks ls none) (LexesTo.word hkeyword hends hcolon)
      have htext : (ClauseForm.presence ls p (.term s)).clause.text =
          (headMarks ls none).leadText ++ (p.keyword ++ ":" ++ s) := by
        rw [ClauseForm.clause, Clause.text]
        rfl
      rw [htext, ClauseForm.canonical, ClauseForm.tokens]
      simpa only [String.toList_append, List.append_assoc, List.cons_append, List.nil_append,
        TargetForm.token] using this

end

/-! ## Comparisons -/

mutual

/-- Only a comparison leaves a flag unset. -/
theorem QueryForm.explicit_clauses : ∀ (q : QueryForm), (∀ c, .compare c ∉ q.tokens) →
    explicitAll q.clauses = q.clauses
  | .nil, _ => by rw [QueryForm.clauses, explicitAll]
  | .cons o q, h => by
    simp only [QueryForm.tokens, List.mem_append, not_or] at h
    rw [QueryForm.clauses, explicitAll, o.clause_eq, explicit_joinOperands,
      o.explicit_operands fun c => (h c).1, q.explicit_clauses fun c => (h c).2]

theorem OrForm.explicit_operands : ∀ (o : OrForm), (∀ c, .compare c ∉ o.tokens) →
    explicitAll o.operands = o.operands
  | .last a, h => by
    rw [OrForm.tokens] at h
    rw [OrForm.operands, explicitAll, explicitAll, a.clause_eq, explicit_joinOperands,
      a.explicit_operands h]
  | .or a o, h => by
    simp only [OrForm.tokens, List.mem_append, List.mem_cons, not_or] at h
    rw [OrForm.operands, explicitAll, a.clause_eq, explicit_joinOperands,
      a.explicit_operands fun c => (h c).1, o.explicit_operands fun c => (h c).2.2]

theorem AndForm.explicit_operands : ∀ (a : AndForm), (∀ c, .compare c ∉ a.tokens) →
    explicitAll a.operands = a.operands
  | .last c, h => by
    rw [AndForm.tokens] at h
    rw [AndForm.operands, explicitAll, explicitAll, c.explicit_clause h]
  | .and c a, h => by
    simp only [AndForm.tokens, List.mem_append, List.mem_cons, not_or] at h
    rw [AndForm.operands, explicitAll, c.explicit_clause fun d => (h d).1,
      a.explicit_operands fun d => (h d).2.2]

theorem ClauseForm.explicit_clause : ∀ (c : ClauseForm), (∀ d, .compare d ∉ c.tokens) →
    c.clause.explicit = c.clause
  | .group ls head q, h => by
    simp only [ClauseForm.tokens, List.mem_append, List.mem_cons, not_or] at h
    have hq := explicit_ofSequence q.clauses
    rw [q.explicit_clauses fun d => (h d).2.2.2.1] at hq
    have hchildren := congrArg Group.children hq
    rw [ClauseForm.clause, Clause.explicit, q.root_eq]
    exact congrArg _ hchildren
  | .value ls head v, h => by
    simp only [ClauseForm.tokens, List.mem_append, not_or] at h
    rw [ClauseForm.clause, Clause.explicit]
    cases v with
    | compare d b => exact absurd List.mem_cons_self (h d).2.2
    | _ => rfl
  | .presence ls p target, _ => by
    rw [ClauseForm.clause, Clause.explicit]
    rfl

end

/-! ## There and back -/

/-- A text whose bare words have no escapes, and whose bounds and presence tests have no phrases, is
read to a tree that can be printed. The printed text is read to the same tree with every inclusive
bound marked as one; that is the same tree when the text has no comparison, and it has the same
filter unless an expander tells the two apart. -/
theorem parse_text_explicit {text : String} {root : Group} {ts : List Token}
    (hparse : parse text = .ok root) (htokens : tokenize text = .ok ts)
    (hescapes : EscapeFree text) (hbounds : quotesBound ts = false) :
    parse root.text = .ok root.explicit ∧
      ((∀ c, .compare c ∉ ts) → root.explicit = root) ∧
      ∀ config : Config, config.expanders = [] →
        (config.compile root.explicit.toClause).result = (config.compile root.toClause).result := by
  obtain ⟨q, hq, rfl, hdepth⟩ := parseWithin_ok_iff.1 hparse
  obtain rfl : ts = q.tokens := Except.ok.inj (htokens.symm.trans hq)
  refine ⟨?_, ?_, ?_⟩
  · -- the printed text has the tokens of the canonical form, whose tree is as deep as the first
    have hprintable : Printable false (q.tokens ++ []) := by
      rw [List.append_nil]
      exact ⟨rereadAll_of_escapeFree htokens hescapes, hbounds⟩
    have hlexes := q.lexes (q.plain hprintable).1 endsWord_nil LexesTo.nil
    rw [List.append_nil, List.append_nil, ← q.text_root] at hlexes
    refine parseWithin_ok_iff.2 ⟨q.canonical, hlexes.tokenize, q.root_canonical, ?_⟩
    rw [Group.depth_explicit]
    exact hdepth
  · intro hcompare
    rw [q.root_eq, explicit_ofSequence, q.explicit_clauses hcompare]
  · intro config hexpanders
    rw [Group.toClause_explicit]
    exact compile_explicit hexpanders q.root.toClause

/-- A signed number as a value, a backslash in a phrase, a comparison and a signed bound. -/
theorem parse_text_explicit_mixed :
    ∃ root ts,
      parse "+!f:-1 \"a \\\"b\" AND g:>5 _exists_:h OR (c [* TO -2])" = .ok root ∧
      tokenize "+!f:-1 \"a \\\"b\" AND g:>5 _exists_:h OR (c [* TO -2])" = .ok ts ∧
      EscapeFree "+!f:-1 \"a \\\"b\" AND g:>5 _exists_:h OR (c [* TO -2])" ∧
      quotesBound ts = false ∧
      root.text = "+NOT f:-1 \"a \\\"b\" AND g:\x7b5 TO *] _exists_:h OR (c [* TO -2])" ∧
      parse root.text = .ok root.explicit ∧ root.explicit ≠ root := by
  let root : Group :=
    { children :=
        [.leaf { field := some "f", negated := true, occur := some .required } (.term "-1" false),
          .group {} (some .and) false
            [.leaf {} (.term "a \"b" true),
              .leaf { field := some "g" } (.range { min := some "5", minInclusive := some false })],
          .group {} (some .or) false
            [.leaf { field := some "h" } (.presence .present),
              .group {} none true
                [.leaf {} (.term "c" false),
                  .leaf {} (.range
                    { max := some "-2", minInclusive := some true, maxInclusive := some true })]]] }
  let ts : List Token :=
    [.sign .required, .not, .term "f", .colon, .term "-1", .phrase "a \"b", .join .and, .term "g",
      .colon, .compare .gt, .term "5", .term "_exists_", .colon, .term "h", .join .or, .openParen,
      .term "c", .openRange true, .term "*", .to, .sign .prohibited, .term "2", .closeRange true,
      .closeParen]
  have hparse :
      parse "+!f:-1 \"a \\\"b\" AND g:>5 _exists_:h OR (c [* TO -2])" = .ok root := by
    decide +kernel
  have htokens :
      tokenize "+!f:-1 \"a \\\"b\" AND g:>5 _exists_:h OR (c [* TO -2])" = .ok ts := by
    decide +kernel
  have hescapes : EscapeFree "+!f:-1 \"a \\\"b\" AND g:>5 _exists_:h OR (c [* TO -2])" := by
    decide +kernel
  have hbounds : quotesBound ts = false := by decide
  have hback := parse_text_explicit hparse htokens hescapes hbounds
  exact ⟨root, ts, hparse, htokens, hescapes, hbounds, by decide +kernel, hback.1, by decide⟩

end SearchQuery
