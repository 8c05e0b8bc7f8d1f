import SearchQuery.Clause.Builder
import SearchQuery.Filter.Compile

/-!
# SearchQuery.Proofs.Explicit

Trees in which every range says of both its bounds whether they are inclusive.

A comparison says it of one bound only. Where it is not said a bound counts as inclusive, so saying
it changes neither the shape of a tree nor its filter.

* `Clause.explicit`  — the tree with every missing flag set.
* `compile_explicit` — it has the same filter, or the same error, when no expander can tell.
-/

namespace SearchQuery

def Range.explicit (r : Range) : Range :=
  { r with
    minInclusive := some (r.minInclusive.getD true)
    maxInclusive := some (r.maxInclusive.getD true) }

def Leaf.explicit : Leaf → Leaf
  | .range r => .range r.explicit
  | l => l

namespace Clause

mutual

def explicit : Clause → Clause
  | .leaf m l => .leaf m l.explicit
  | .group m op parens children => .group m op parens (explicitAll children)

def explicitAll : List Clause → List Clause
  | [] => []
  | c :: cs => c.explicit :: explicitAll cs

end

@[simp] theorem marks_explicit (c : Clause) : c.explicit.marks = c.marks := by
  cases c <;> simp [explicit, marks]

mutual

@[simp] theorem depth_explicit : (c : Clause) → c.explicit.depth = c.depth
  | .leaf m l => by rw [explicit, depth, depth]
  | .group m op parens children => by rw [explicit, depth, depth, deepest_explicitAll children]

@[simp] theorem deepest_explicitAll : (cs : List Clause) → deepest (explicitAll cs) = deepest cs
  | [] => by rw [explicitAll]
  | c :: cs => by rw [explicitAll, deepest, deepest, depth_explicit c, deepest_explicitAll cs]

end

end Clause

open Clause

def Group.explicit (g : Group) : Group :=
  { g with children := explicitAll g.children }

theorem Group.toClause_explicit (g : Group) : g.explicit.toClause = g.toClause.explicit := by
  rw [Group.toClause, Group.toClause, Clause.explicit]
  rfl

theorem Group.depth_explicit (g : Group) : g.explicit.depth = g.depth := by
  rw [Group.depth, Group.toClause_explicit, Clause.depth_explicit, Group.depth]

/-! ## Shapes -/

theorem explicit_joinOperands (op : Connective) (cs : List Clause) :
    (joinOperands op cs).explicit = joinOperands op (explicitAll cs) := by
  match cs with
  | [] => simp [joinOperands, Clause.explicit, explicitAll]
  | [c] => simp [joinOperands, explicitAll]
  | c :: d :: cs => simp [joinOperands, Clause.explicit, explicitAll]

theorem explicit_ofSequence (cs : List Clause) :
    (Group.ofSequence cs).explicit = Group.ofSequence (explicitAll cs) := by
  match cs with
  | [] => simp [Group.ofSequence, Group.explicit, explicitAll]
  | [.leaf m l] => simp [Group.ofSequence, Group.explicit, explicitAll, Clause.explicit]
  | [.group ⟨field, negated, occur⟩ op parens children] =>
    rcases field with _ | f <;> rcases negated with _ | _ <;> rcases occur with _ | o <;>
      rcases parens with _ | _ <;>
      simp [Group.ofSequence, Group.explicit, explicitAll, Clause.explicit]
  | c :: d :: cs => simp [Group.ofSequence, Group.explicit, explicitAll]

/-! ## Filters -/

theorem bounds?_explicit (r : Range) (field : String) :
    r.explicit.bounds? field = r.bounds? field := by
  have hflag : ∀ flag : Option Bool, some (flag.getD true) = some false ↔ flag = some false := by
    intro flag
    rcases flag with _ | _ | _ <;> simp
  simp only [Range.bounds?, Range.explicit, hflag]

theorem leafConstraint_explicit (op : Connective) (field : Option String) (analyzed : Bool)
    (l : Leaf) :
    leafConstraint op field analyzed l.explicit = leafConstraint op field analyzed l := by
  cases l with
  | range r =>
    have hbounds : r.explicit.bounds? = r.bounds? := funext (bounds?_explicit r)
    simp only [Leaf.explicit, leafConstraint, hbounds]
  | _ => rfl

theorem visitLeaf_explicit {config : Config} (h : config.expanders = []) (scope : Scope)
    (m : Marks) (l : Leaf) :
    (visitLeaf config scope m l.explicit).result = (visitLeaf config scope m l).result := by
  simp only [visitLeaf, leafConstraint_explicit, h, Expander.runAll]
  split
  · rfl
  · rfl

mutual

theorem visit_explicit {config : Config} (h : config.expanders = []) : ∀ (c : Clause)
    (scope : Scope), (visit config scope c.explicit).result = (visit config scope c).result
  | .leaf m l, scope => by
    rw [Clause.explicit, visit, visit]
    exact visitLeaf_explicit h scope m l
  | .group m op parens children, scope => by
    rw [Clause.explicit, visit, visit]
    split
    · rfl
    · exact visitAll_explicit h children _ {}

theorem visitAll_explicit {config : Config} (h : config.expanders = []) : ∀ (cs : List Clause)
    (scope : Scope) (before : Contribution),
    (visitAll config scope before (explicitAll cs)).result =
      (visitAll config scope before cs).result
  | [], scope, before => by rw [explicitAll]
  | c :: cs, scope, before => by
    rw [explicitAll, visitAll, visitAll, Traced.result_bind, Traced.result_bind,
      visit_explicit h c scope, marks_explicit]
    have hrest : ∀ next, (visitAll config scope (before.add scope.op c.marks next)
        (explicitAll cs)).result =
        (visitAll config scope (before.add scope.op c.marks next) cs).result :=
      fun next => visitAll_explicit h cs scope _
    simp only [hrest]

end

/-- Saying that a bound is inclusive changes no filter. -/
theorem compile_explicit {config : Config} (h : config.expanders = []) (root : Clause) :
    (config.compile root.explicit).result = (config.compile root).result := by
  have hroot : (visitAll config config.rootScope {} [root.explicit]).result =
      (visitAll config config.rootScope {} [root]).result :=
    visitAll_explicit h [root] config.rootScope {}
  rw [Config.compile, Config.compile, Traced.result_bind, Traced.result_bind, hroot]

end SearchQuery
