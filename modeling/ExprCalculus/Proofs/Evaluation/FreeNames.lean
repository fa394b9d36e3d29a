import ExprCalculus.Proofs.Derivative.Closure
import ExprCalculus.Proofs.Evaluation.Expectation
import ExprCalculus.Proofs.Number.Interchange
import ExprCalculus.Value.Real

/-!
# The free names of a tree

In a tree without compositions and calls, the free names are all that evaluation looks up, and neither a pass of
simplification nor a derivative brings in others.  So it is enough to bind the free names, provided that what they are
bound to looks up no variables: then no variable is found unbound, and the outcome depends on these bindings alone.

A composition counts the names of its inner function only, and a call none; bindings to such expressions therefore may
depend on more than the free names say.

* `Expr.plainOver_differential` — passes and derivatives bring in no names.
* `Expr.PlainOver.namesIn` — the free names are the names looked up.
* `free_names_suffice` — evaluation where the free names are bound.
* `free_names_overlook` — bindings that have no free names and yet depend on others, and literals that differ in a sign.
-/

namespace ExprCalculus

namespace Expr

/-! ## Trees without compositions and calls -/

mutual

/-- Whether a tree is without compositions and calls, the parameters of custom functions left aside. -/
def isPlain : Expr → Bool
  | .number _ | .var _ => true
  | .compose .. | .call _ => false
  | .fixed e | .neg e | .apply _ e | .root _ e | .custom _ _ e => isPlain e
  | .vector es => allPlain es
  | .interval a b | .binary _ a b | .log a b => isPlain a && isPlain b

/-- Whether all the trees are. -/
def allPlain : List Expr → Bool
  | [] => true
  | e :: es => isPlain e && allPlain es

end

theorem allPlain_iff {es : List Expr} : allPlain es = true ↔ ∀ e ∈ es, e.isPlain = true := by
  induction es with
  | nil => simp [allPlain]
  | cons e es ih => simp [allPlain, ih]

theorem mem_freeVarsOf {x : String} {es : List Expr} : x ∈ freeVarsOf es ↔ ∃ e ∈ es, x ∈ e.freeVars := by
  induction es with
  | nil => simp [freeVarsOf]
  | cons e es ih => simp [freeVarsOf, ih]

/-- A tree without compositions and calls whose free names are in `S`. -/
def PlainOver (S : Set String) (e : Expr) : Prop := e.isPlain = true ∧ ∀ x ∈ e.freeVars, x ∈ S

variable {S : Set String} {a b : Expr}

theorem plainOver_interval : PlainOver S (.interval a b) ↔ PlainOver S a ∧ PlainOver S b := by
  simp only [PlainOver, isPlain, freeVars, Bool.and_eq_true, List.forall_mem_append]
  exact and_and_and_comm

theorem plainOver_vector {es : List Expr} : PlainOver S (.vector es) ↔ ∀ e ∈ es, PlainOver S e := by
  simp only [PlainOver, isPlain, freeVars, allPlain_iff, mem_freeVarsOf]
  constructor
  · exact fun h e he => ⟨h.1 e he, fun x hx => h.2 x ⟨e, he, hx⟩⟩
  · rintro h
    exact ⟨fun e he => (h e he).1, fun x ⟨e, he, hx⟩ => (h e he).2 x hx⟩

theorem plainOver_number (S : Set String) (n : Num) : PlainOver S (.number n) := by
  simp [PlainOver, isPlain, freeVars]

/-- **Neither passes nor derivatives bring in names.** -/
theorem plainOver_differential (S : Set String) : Differential (PlainOver S) where
  int k := plainOver_number S _
  euler := plainOver_number S _
  negate _ _ := plainOver_number S _
  pred _ := plainOver_number S _
  fixed h := h
  vector h := plainOver_vector.mp h
  vector_map f _ h := by
    refine plainOver_vector.mpr fun e he => ?_
    obtain ⟨d, hd, rfl⟩ := List.mem_map.mp he
    exact h d hd
  vector_of _ _ h := plainOver_vector.mpr h
  interval := plainOver_interval
  binary := plainOver_interval
  neg := .rfl
  apply := .rfl
  log := plainOver_interval
  root h := ⟨h, fun _ hb => hb⟩
  custom h := by
    obtain ⟨hplain, hnames⟩ := h
    rw [freeVars, List.forall_mem_append] at hnames
    refine ⟨⟨hplain, hnames.2⟩, fun b hb => ⟨hb.1, ?_⟩⟩
    rw [freeVars, List.forall_mem_append]
    exact ⟨hnames.1, hb.2⟩
  compose h := by cases h.1
  wrap h := by cases h.1
  derived h := by cases h.1

mutual

/-- The free names are the names looked up. -/
theorem PlainOver.namesIn {F : Set String} : ∀ e : Expr, PlainOver S e → e.NamesIn S F
  | .number _, _ => trivial
  | .var x, h => h.2 x (by simp [freeVars])
  | .fixed e, h | .neg e, h | .apply _ e, h | .root _ e, h => PlainOver.namesIn e h
  | .vector es, h => PlainOver.allNamesIn es (plainOver_vector.mp h)
  | .interval a b, h | .binary _ a b, h | .log a b, h =>
    have hab := plainOver_interval.mp h
    ⟨PlainOver.namesIn a hab.1, PlainOver.namesIn b hab.2⟩
  | .custom _ _ e, h => PlainOver.namesIn e ((plainOver_differential S).custom h).1
  | .compose .., h | .call _, h => by cases h.1

theorem PlainOver.allNamesIn {F : Set String} :
    ∀ es : List Expr, (∀ e ∈ es, PlainOver S e) → AllNamesIn es S F
  | [], _ => trivial
  | e :: es, h =>
    ⟨PlainOver.namesIn e (h e List.mem_cons_self), PlainOver.allNamesIn es fun d hd => h d (List.mem_cons_of_mem _ hd)⟩

end

end Expr

/-! ## Evaluation -/

/-- Two expressions that differ in literals of one value at most; the negative zero differs from the others. -/
def Expr.Interchangeable (e e' : Expr) : Prop := Expr.sameBy Num.interchangeable e e' = true

instance (e e' : Expr) : Decidable (e.Interchangeable e') := inferInstanceAs (Decidable (_ = true))

/-- **The free names suffice** for a tree without compositions and calls.  Passes and derivatives bring in no names.
Where the free names are bound, to expressions that look up no variables, no variable is found unbound; and the same
bindings of the free names, and of the functions of `F` that these expressions call, give the same outcome. -/
theorem free_names_suffice {e : Expr} (he : e.isPlain = true) :
    (∀ x ∈ e.simplify.freeVars, x ∈ e.freeVars) ∧
    (∀ v d, Expr.derive v e = .ok d → ∀ x ∈ d.freeVars, x ∈ e.freeVars) ∧
    ∀ (F : Set String) (env : Env Float), env.LeadsTo (·.NamesIn ∅ F) {x | x ∈ e.freeVars} F →
      (∀ x ∈ e.freeVars, env.vars x ≠ none) → ∀ depth tag,
        (∀ x, evaluateUpTo depth tag env e ≠ .error (.unboundVariable x)) ∧
        ∀ env', env.Alike Expr.Interchangeable {x | x ∈ e.freeVars} F env' →
          evaluateUpTo depth tag env e = evaluateUpTo depth tag env' e := by
  have hplain : e.PlainOver {x | x ∈ e.freeVars} := ⟨he, fun x hx => hx⟩
  have hdifferential := Expr.plainOver_differential {x | x ∈ e.freeVars}
  refine ⟨(hdifferential.simplify e hplain).2, fun v d hd => (hdifferential.derive v e d hplain hd).2, ?_⟩
  intro F env hclosed hbound depth tag
  have hleads := hclosed.imp fun b hb => Expr.NamesIn.mono b (Set.empty_subset {x | x ∈ e.freeVars}) hb
  have hsame (m n : Num) (h : m.interchangeable n = true) : (Scalar.ofNum? m : Option Float) = Scalar.ofNum? n :=
    Num.toFloat?_eq_of_interchangeable h
  constructor
  · exact evaluateUpTo_bound hleads hbound hplain.namesIn depth tag
  · intro env' halike
    exact evaluateUpTo_alike hsame (hleads.paired halike) hplain.namesIn depth tag

/-- Binds `x` to a call of `f`, and `f` to a function without parameters. -/
def Env.withCall (n : Int) : Env Float where
  vars x := if x = "x" then some (.tree (.call "f")) else none
  funcs f := if f = "f" then some (.custom "f" [] (.int n)) else none

/-- The tree `1 / y + x`. -/
def Expr.reciprocalAndCall : Expr := .plus (.divide (.int 1) (.var "y")) (.var "x")

/-- One context has the integer 2 for `y`, the other the machine number; both call the same function. -/
theorem free_names_suffice_reciprocalAndCall :
    (∀ x, evaluate (.domain .vector) ((Env.withCall 3).bind "y" (.tree (.int 2))) Expr.reciprocalAndCall ≠
      .error (.unboundVariable x)) ∧
    evaluate (.domain .vector) ((Env.withCall 3).bind "y" (.tree (.int 2))) Expr.reciprocalAndCall =
      evaluate (.domain .vector) ((Env.withCall 3).bind "y" (.tree (.number (.float 2)))) Expr.reciprocalAndCall := by
  have hplain : Expr.reciprocalAndCall.isPlain = true := rfl
  have names {x : String} (hx : x ∈ Expr.reciprocalAndCall.freeVars) : x = "y" ∨ x = "x" := by
    simpa [Expr.reciprocalAndCall, Expr.freeVars] using hx
  have hclosed : ((Env.withCall 3).bind "y" (.tree (.int 2))).LeadsTo (·.NamesIn ∅ {"f"})
      {x | x ∈ Expr.reciprocalAndCall.freeVars} {"f"} := by
    refine ⟨fun x hx e he => ?_, fun f hf e he => ?_⟩
    · obtain rfl | rfl := names hx
      · cases he
        trivial
      · cases he
        rfl
    · cases hf
      cases he
      trivial
  have hbound : ∀ x ∈ Expr.reciprocalAndCall.freeVars, ((Env.withCall 3).bind "y" (.tree (.int 2))).vars x ≠ none := by
    intro x hx
    obtain rfl | rfl := names hx
    · nofun
    · nofun
  have halike : ((Env.withCall 3).bind "y" (.tree (.int 2))).Alike Expr.Interchangeable
      {x | x ∈ Expr.reciprocalAndCall.freeVars} {"f"} ((Env.withCall 3).bind "y" (.tree (.number (.float 2)))) := by
    refine ⟨fun x hx => ?_, fun f hf => ?_⟩
    · obtain rfl | rfl := names hx
      · have htwo : (Expr.int 2).Interchangeable (.number (.float 2)) := by decide +kernel
        exact .some (.tree htwo)
      · have hcall : (Expr.call "f").Interchangeable (.call "f") := rfl
        exact .some (.tree hcall)
    · cases hf
      have hcustom : (Expr.custom "f" [] (.int 3)).Interchangeable (.custom "f" [] (.int 3)) := rfl
      exact .some hcustom
  obtain ⟨hcovered, hsame⟩ := (free_names_suffice hplain).2.2 {"f"} _ hclosed hbound defaultDepth (.domain .vector)
  exact ⟨hcovered, hsame _ halike⟩

/-- Whether all that names are bound to is without free names. -/
def Env.NoFreeNames {α : Type} (env : Env α) : Prop :=
  (∀ x e, env.vars x = some (.tree e) → e.freeVars = []) ∧ ∀ f e, env.funcs f = some e → e.freeVars = []

/-- Binds `x` to a composition whose outer function has the parameter `p` and the value `q`. -/
def Env.withComposition : Env Float :=
  Env.empty.bind "x" (.tree (.compose (.custom "f" [] (.int 1)) (.custom "g" [.var "p"] (.var "q"))))

/-- Binds `x` to a literal. -/
def Env.withLiteral (v : Num) : Env Float := Env.empty.bind "x" (.tree (.number v))

/-- Calls and compositions hide names: the call of `f` depends on what `f` is bound to, and the composition looks up
`q`.  The two zeros are equal, and their reciprocals are not. -/
theorem free_names_overlook :
    ((Env.withCall 1).NoFreeNames ∧ (Env.withCall 2).NoFreeNames ∧
      (Env.withCall 1).vars = (Env.withCall 2).vars ∧
      evaluate (.domain .real) (Env.withCall 1) (.var "x") = .ok (.real 1) ∧
      evaluate (.domain .real) (Env.withCall 2) (.var "x") = .ok (.real 2)) ∧
    (Env.withComposition.NoFreeNames ∧ (∀ x ∈ (Expr.var "x").freeVars, Env.withComposition.vars x ≠ none) ∧
      evaluate (.domain .real) Env.withComposition (.var "x") = .error (.unboundVariable "q")) ∧
    ((Env.withLiteral (.int 0)).NoFreeNames ∧ (Env.withLiteral (.float (-0.0))).NoFreeNames ∧
      (Expr.int 0).equal (.number (.float (-0.0))) = true ∧
      evaluate (.domain .real) (Env.withLiteral (.int 0)) (.divide (.int 1) (.var "x")) = .ok (.real infinity) ∧
      evaluate (.domain .real) (Env.withLiteral (.float (-0.0))) (.divide (.int 1) (.var "x")) =
        .ok (.real (-infinity))) := by
  have bound_only {e : Expr} (he : e.freeVars = []) : (Env.empty.bind "x" (.tree e) : Env Float).NoFreeNames := by
    refine ⟨fun x d hd => ?_, fun f d hd => by cases hd⟩
    unfold Env.bind at hd
    simp only at hd
    split at hd
    · cases hd
      exact he
    · cases hd
  have hcall (n : Int) : (Env.withCall n).NoFreeNames := by
    constructor
    · intro x e he
      simp only [Env.withCall] at he
      split at he
      · cases he
        rfl
      · cases he
    · intro f e he
      simp only [Env.withCall] at he
      split at he
      · cases he
        rfl
      · cases he
  refine ⟨⟨hcall 1, hcall 2, rfl, rfl, rfl⟩, ⟨bound_only rfl, ?_, rfl⟩, bound_only rfl, bound_only rfl, ?_, rfl, rfl⟩
  · simp [Expr.freeVars, Env.withComposition, Env.bind]
  · decide +kernel

end ExprCalculus
