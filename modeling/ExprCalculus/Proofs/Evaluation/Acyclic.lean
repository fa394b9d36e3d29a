import ExprCalculus.Proofs.Evaluation.Reach

/-!
# Bindings without a cycle

Where there are no functions, and the free names of what a name is bound to are all that it looks up, names lead on to
free names and to nothing else.  So no name leads to itself if none does by way of free names.

* `nonCyclic_of_acyclic` - a cycle of names is a cycle of free names.
* `evaluateUpTo_meets_of_acyclic` - an expectation is met although it does not allow for exceeding the depth, if the
  depth is more than the number of bindings.
-/

namespace ExprCalculus

variable {α : Type}

namespace Env

/-- The names that are not bound to an expression: unbound, or bound to a number. -/
def untied (env : Env α) : Set String := {x | ∀ e, env.vars x ≠ some (.tree e)}

/-- The expression that a name is bound to has another name. -/
def Uses (env : Env α) (x y : String) : Prop := ∃ e, env.vars x = some (.tree e) ∧ y ∈ e.freeVars

/-- No name leads to itself. -/
def Acyclic (env : Env α) : Prop := ∀ x, ¬ Relation.TransGen env.Uses x x

/-- Bindings without free names have no cycle. -/
theorem acyclic_of_closed {env : Env α} (h : ∀ x e, env.vars x = some (.tree e) → e.freeVars = []) : env.Acyclic := by
  intro x hcycle
  obtain ⟨y, ⟨e, he, hy⟩, -⟩ := Relation.TransGen.head'_iff.1 hcycle
  rw [h x e he] at hy
  cases hy

variable {env : Env α}

/-- Without functions only variables are bound. -/
theorem vars_of_bound? (hfuncs : ∀ f, env.funcs f = none) {k : NameSort} {x : String} {e : Expr}
    (he : env.bound? k x = some e) : k = .ofVariable ∧ env.vars x = some (.tree e) := by
  cases k with
  | ofVariable => exact ⟨rfl, bound?_ofVariable.mp he⟩
  | ofFunction =>
    rw [bound?, hfuncs] at he
    cases he

/-- A cycle of names is a cycle of free names. -/
theorem nonCyclic_of_acyclic (hfuncs : ∀ f, env.funcs f = none)
    (htrees : ∀ x e, env.vars x = some (.tree e) → e.NamesIn {y | y ∈ e.freeVars} Set.univ) (hacyclic : env.Acyclic) :
    env.NonCyclic := by
  -- from a name that leads to a variable, free names do
  have onVariables {n : NameSort × String} {x : String} (h : Relation.TransGen env.LeadsOn n (.ofVariable, x)) :
      n.1 = .ofVariable ∧ Relation.TransGen env.Uses n.2 x := by
    induction h using Relation.TransGen.head_induction_on with
    | single hlead =>
      obtain ⟨e, he, hx⟩ := hlead
      obtain ⟨hk, he⟩ := vars_of_bound? hfuncs he
      exact ⟨hk, .single ⟨e, he, (Expr.namesIn_iff_looksUp.mp (htrees _ e he)).1 x hx⟩⟩
    | head hlead _ ih =>
      obtain ⟨e, he, hy⟩ := hlead
      obtain ⟨hk, he⟩ := vars_of_bound? hfuncs he
      rw [ih.1] at hy
      exact ⟨hk, .head ⟨e, he, (Expr.namesIn_iff_looksUp.mp (htrees _ e he)).1 _ hy⟩ ih.2⟩
  rintro ⟨k, x⟩ hcycle
  obtain ⟨m, ⟨e, he, -⟩, -⟩ := Relation.TransGen.head'_iff.mp hcycle
  obtain ⟨rfl, -⟩ := vars_of_bound? hfuncs he
  exact hacyclic x (onVariables hcycle).2

end Env

/-- **An expectation is met without exceeding the depth** where no name leads to itself, if the depth is more than the
number of names. -/
theorem evaluateUpTo_meets_of_acyclic [Scalar α] {E : Expectation α} (hE : E.Kept)
    (hunbound : ∀ x tag, E.error tag (.unboundVariable x)) {env : Env α} {names : List String}
    (hfuncs : ∀ f, env.funcs f = none)
    (htrees : ∀ x e, env.vars x = some (.tree e) → e.NamesIn {y | y ∈ e.freeVars} Set.univ) (hacyclic : env.Acyclic)
    (hnames : ∀ x, x ∉ names → x ∈ env.untied) {depth : Nat} (hdepth : names.length < depth) (e : Expr) (tag : Tag) :
    E.Meets tag (evaluateUpTo depth tag env e) := by
  have hcycles := Env.nonCyclic_of_acyclic hfuncs htrees hacyclic
  have hbound : ∀ n b, env.bound? n.1 n.2 = some b → n ∈ names.map fun x => (NameSort.ofVariable, x) := by
    rintro ⟨k, x⟩ b hb
    obtain ⟨rfl, hb⟩ := Env.vars_of_bound? hfuncs hb
    exact List.mem_map_of_mem (by_contra fun hx => hnames x hx b hb)
  exact evaluateUpTo_meets_of_nonCyclic hE hunbound hcycles hbound (by rwa [List.length_map]) e tag

end ExprCalculus
