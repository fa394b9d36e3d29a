import ExprCalculus.Proofs.Evaluation.FreeNames

/-!
# The names that a composition needs

A composition needs the names that its inner function looks up, and those of the outer function that are not its
parameters (`Expr.neededNames`).  Nothing less does: where an evaluation gives a value, all names needed are bound.
And nothing more is looked up: with numbers for the names needed no variable is found unbound, whatever the other names
are bound to.

The free names of a composition are those of the inner function alone.  They hold the names needed if the outer function
looks up its own parameters and free names of the inner one, and nothing else.

* `Expr.namesIn_iff` — the names needed are the names looked up, in a tree without calls.
* `namesIn_of_evaluateWith` — a value needs them bound.
* `names_of_composition` — numbers for them are enough, and numbers for the free names if these hold them.
* `free_names_of_composition_overlook` — a composition without free names that looks up a name.
-/

namespace ExprCalculus

/-! ## Names needed -/

namespace Expr

mutual

/-- The names that a tree looks up, those that a composition binds for its outer function left aside. -/
def neededNames : Expr → List String
  | .number _ | .call _ => []
  | .var x => [x]
  | .fixed e | .neg e | .apply _ e | .root _ e | .custom _ _ e => neededNames e
  | .vector es => neededNamesOf es
  | .interval a b | .binary _ a b | .log a b => neededNames a ++ neededNames b
  | .compose f g => neededNames f ++ (neededNames g).filter (!g.parameterNames.contains ·)

/-- The names that several trees look up. -/
def neededNamesOf : List Expr → List String
  | [] => []
  | e :: es => neededNames e ++ neededNamesOf es

end

variable {V F : Set String}

/-- What the outer function needs of a composition: what it looks up besides its parameters. -/
theorem forall_mem_neededNames_compose {f g : Expr} {P : String → Prop} :
    (∀ x ∈ (compose f g).neededNames, P x) ↔
      (∀ x ∈ f.neededNames, P x) ∧ ∀ x ∈ g.neededNames, x ∈ g.parameterNames ∨ P x := by
  simp only [neededNames, List.forall_mem_append, List.mem_filter, Bool.not_eq_true', List.contains_eq_mem,
    decide_eq_false_iff_not, and_imp, or_iff_not_imp_left]

mutual

/-- In a tree without calls the names needed are the names looked up. -/
theorem namesIn_iff : ∀ {e : Expr} {V : Set String}, e.hasCall = false →
    (e.NamesIn V F ↔ ∀ x ∈ e.neededNames, x ∈ V)
  | .number _, _, _ => by simp [NamesIn, neededNames]
  | .var x, _, _ => by simp [NamesIn, neededNames]
  | .call _, _, h => by cases h
  | .fixed e, _, h | .neg e, _, h | .apply _ e, _, h | .root _ e, _, h => namesIn_iff (e := e) h
  | .custom _ params e, _, h => by
    rw [hasCall, Bool.or_eq_false_iff] at h
    exact namesIn_iff (e := e) h.2
  | .vector _, _, h => allNamesIn_iff h
  | .interval a b, _, h | .binary _ a b, _, h | .log a b, _, h => by
    rw [hasCall, Bool.or_eq_false_iff] at h
    rw [NamesIn, neededNames, List.forall_mem_append, namesIn_iff h.1, namesIn_iff h.2]
  | .compose f g, _, h => by
    rw [hasCall, Bool.or_eq_false_iff] at h
    rw [NamesIn, forall_mem_neededNames_compose, namesIn_iff h.1, namesIn_iff h.2]
    simp only [Set.mem_union, Set.mem_ofPred_eq, or_comm]

theorem allNamesIn_iff : ∀ {es : List Expr} {V : Set String}, anyHasCall es = false →
    (AllNamesIn es V F ↔ ∀ x ∈ neededNamesOf es, x ∈ V)
  | [], _, _ => by simp [AllNamesIn, neededNamesOf]
  | e :: es, _, h => by
    rw [anyHasCall, Bool.or_eq_false_iff] at h
    rw [AllNamesIn, neededNamesOf, List.forall_mem_append, namesIn_iff h.1, allNamesIn_iff h.2]

end

mutual

/-- In a tree without compositions the names needed are free. -/
theorem freeVars_of_neededNames {x : String} : ∀ {e : Expr}, e.isPlain = true → x ∈ e.neededNames → x ∈ e.freeVars
  | .number _, _, hx | .var _, _, hx => hx
  | .fixed e, h, hx | .neg e, h, hx | .apply _ e, h, hx | .root _ e, h, hx => freeVars_of_neededNames (e := e) h hx
  | .custom _ _ e, h, hx => List.mem_append_right _ (freeVars_of_neededNames (e := e) h hx)
  | .vector _, h, hx => freeVarsOf_of_neededNamesOf h hx
  | .interval a b, h, hx | .binary _ a b, h, hx | .log a b, h, hx => by
    rw [isPlain, Bool.and_eq_true] at h
    rw [neededNames, List.mem_append] at hx
    rw [freeVars, List.mem_append]
    exact hx.imp (freeVars_of_neededNames h.1) (freeVars_of_neededNames h.2)
  | .compose .., h, _ | .call _, h, _ => by cases h

theorem freeVarsOf_of_neededNamesOf {x : String} :
    ∀ {es : List Expr}, allPlain es = true → x ∈ neededNamesOf es → x ∈ freeVarsOf es
  | [], _, hx => hx
  | e :: es, h, hx => by
    rw [allPlain, Bool.and_eq_true] at h
    rw [neededNamesOf, List.mem_append] at hx
    rw [freeVarsOf, List.mem_append]
    exact hx.imp (freeVars_of_neededNames h.1) (freeVarsOf_of_neededNamesOf h.2)

end

end Expr

/-! ## Values need them -/

section

variable {α : Type} [Scalar α] {bound : Tag → Env α → Expr → Outcome α}

theorem refused_ne_ok {α : Type} (what : String) (tag : Tag) (v : Value α) : Outcome.refused what tag ≠ .ok v := by
  cases tag with
  | domain d => nofun
  | other s => nofun

/-- The variables that are bound. -/
def Env.boundNames {α : Type} (env : Env α) : Set String := {x | env.vars x ≠ none}

/-- A composition binds its outer function's parameters and nothing else. -/
theorem Env.boundNames_bindArguments {α : Type} (env : Env α) (g : Expr) (xs : List α) :
    (env.bindArguments g.args xs).boundNames ⊆ env.boundNames ∪ {x | x ∈ g.parameterNames} := by
  intro x hx
  by_cases hparam : x ∈ g.parameterNames
  · exact .inr hparam
  · left
    intro hnone
    rw [← Env.bindArguments_of_not_mem hparam env xs] at hnone
    exact hx hnone

mutual

/-- Where a tree has a value, the variables that it looks up are bound. -/
theorem namesIn_of_evaluateWith : ∀ (e : Expr) {tag : Tag} {env : Env α} {v : Value α},
    evaluateWith bound e tag env = .ok v → e.NamesIn env.boundNames Set.univ
  | .number _, _, _, _, _ => trivial
  | .var x, _, env, _, h => by
    intro hnone
    simp [evaluateWith, hnone] at h
  | .call f, _, _, _, _ => Set.mem_univ f
  | .fixed e, tag, env, _, h => by
    rw [evaluateWith] at h
    exact namesIn_of_evaluateWith e h
  | .vector es, tag, env, _, h => by
    unfold evaluateWith at h
    split at h
    · split at h
      · cases h
      rename_i vs hvs
      exact allNamesIn_of_evaluateAll es hvs
    · split at h
      · split at h
        · cases h
        · cases h
        rename_i hvs
        exact allNamesIn_of_evaluateAll es hvs
      · exact absurd h (refused_ne_ok _ _ _)
    · exact absurd h (refused_ne_ok _ _ _)
  | .interval a b, tag, env, _, h => by
    unfold evaluateWith at h
    split at h
    · split at h
      · cases h
      rename_i ha
      split at h
      · cases h
      rename_i hb
      exact ⟨namesIn_of_evaluateWith a ha, namesIn_of_evaluateWith b hb⟩
    · exact absurd h (refused_ne_ok _ _ _)
  | .binary op a b, tag, env, _, h => by
    unfold evaluateWith at h
    split at h
    · cases h
    rename_i ha
    split at h
    · cases h
    rename_i hb
    exact ⟨namesIn_of_evaluateWith a ha, namesIn_of_evaluateWith b hb⟩
  | .neg a, tag, env, _, h => by
    unfold evaluateWith at h
    split at h
    · cases h
    split at h
    · cases h
    rename_i ha
    exact namesIn_of_evaluateWith a ha
  | .apply fn a, tag, env, _, h => by
    unfold evaluateWith at h
    split at h
    · split at h
      · cases h
      rename_i ha
      exact namesIn_of_evaluateWith a ha
    · exact absurd h (refused_ne_ok _ _ _)
  | .log a b, tag, env, _, h => by
    unfold evaluateWith at h
    split at h
    · split at h
      · cases h
      rename_i hb
      split at h
      · cases h
      split at h
      · cases h
      rename_i ha
      exact ⟨namesIn_of_evaluateWith a ha, namesIn_of_evaluateWith b hb⟩
    · exact absurd h (refused_ne_ok _ _ _)
  | .root n a, tag, env, _, h => by
    unfold evaluateWith at h
    split at h
    · split at h
      · cases h
      rename_i ha
      exact namesIn_of_evaluateWith a ha
    · exact absurd h (refused_ne_ok _ _ _)
  | .custom _ _ e, tag, env, _, h => by
    rw [evaluateWith] at h
    exact namesIn_of_evaluateWith e h
  | .compose f g, _, env, _, h => by
    obtain ⟨-, xs, ⟨w, hf, -⟩, hg⟩ := evaluateWith_compose_iff.1 h
    have hnames := namesIn_of_evaluateWith g hg
    exact ⟨namesIn_of_evaluateWith f hf, hnames.mono g (env.boundNames_bindArguments g xs)⟩

theorem allNamesIn_of_evaluateAll : ∀ (es : List Expr) {tag : Tag} {env : Env α} {vs : List (Value α)},
    evaluateAll bound es tag env = .ok vs → Expr.AllNamesIn es env.boundNames Set.univ
  | [], _, _, _, _ => trivial
  | e :: es, tag, env, _, h => by
    unfold evaluateAll at h
    split at h
    · cases h
    rename_i he
    split at h
    · cases h
    rename_i hes
    exact ⟨namesIn_of_evaluateWith e he, allNamesIn_of_evaluateAll es hes⟩

end

end

/-! ## Compositions -/

/-- Whether a variable is bound to a number, calculated or written. -/
def Env.BindsNumber {α : Type} (env : Env α) (x : String) : Prop :=
  (∃ y, env.vars x = some (.number y)) ∨ ∃ v, env.vars x = some (.tree (.number v))

/-- Whether a tree is evaluated without blame for an unbound variable, to what the bindings of `names` say and no other
binding of a variable or a function changes. -/
def Env.Determines (env : Env Float) (names : List String) (e : Expr) : Prop :=
  ∀ depth tag, (∀ x, evaluateUpTo depth tag env e ≠ .error (.unboundVariable x)) ∧
    ∀ env' : Env Float, (∀ x ∈ names, env'.vars x = env.vars x) →
      evaluateUpTo depth tag env' e = evaluateUpTo depth tag env e

/-- **Numbers for the names needed are enough** in a tree without calls. -/
theorem Env.determines_of_neededNames {env : Env Float} {e : Expr} (hcall : e.hasCall = false) {names : List String}
    (hneeded : ∀ x ∈ e.neededNames, x ∈ names) (hnumbers : ∀ x ∈ names, env.BindsNumber x) :
    env.Determines names e := by
  have hnames : e.NamesIn {x | x ∈ names} ∅ := (Expr.namesIn_iff hcall).mpr hneeded
  have hleads : env.LeadsTo (·.NamesIn {x | x ∈ names} ∅) {x | x ∈ names} ∅ := by
    refine ⟨fun x hx b hb => ?_, fun f hf => hf.elim⟩
    obtain ⟨y, hy⟩ | ⟨v, hv⟩ := hnumbers x hx
    · rw [hy] at hb
      cases hb
    · rw [hv] at hb
      cases hb
      trivial
  have hbound : ∀ x ∈ {x | x ∈ names}, env.vars x ≠ none := by
    intro x hx hnone
    obtain ⟨y, hy⟩ | ⟨v, hv⟩ := hnumbers x hx
    · rw [hy] at hnone
      cases hnone
    · rw [hv] at hnone
      cases hnone
  intro depth tag
  refine ⟨evaluateUpTo_bound hleads hbound hnames depth tag, fun env' hagree => ?_⟩
  have halike : env.Alike (fun b b' => Expr.sameBy (fun m n => decide (m = n)) b b' = true) {x | x ∈ names} ∅ env' := by
    refine ⟨fun x hx => ?_, fun f hf => hf.elim⟩
    rw [hagree x hx]
    obtain ⟨y, hy⟩ | ⟨v, hv⟩ := hnumbers x hx
    · rw [hy]
      exact .some (.number y)
    · rw [hv]
      exact .some (.tree (by simp [Expr.sameBy]))
  have hliterals (m n : Num) (h : decide (m = n) = true) : (Scalar.ofNum? m : Option Float) = Scalar.ofNum? n := by
    rw [of_decide_eq_true h]
  exact (evaluateUpTo_alike hliterals (hleads.paired halike) hnames depth tag).symm

/-- **The names that a composition needs.**  An evaluation of it gives no value unless they are bound, and numbers for
them determine what it gives.  So do numbers for its free names, if the inner function's free names hold those that it
needs, and those that the outer one needs besides its parameters. -/
theorem names_of_composition {f g : Expr} (hcall : (Expr.compose f g).hasCall = false) (env : Env Float) :
    (∀ depth tag v, evaluateUpTo depth tag env (.compose f g) = .ok v →
      ∀ x ∈ (Expr.compose f g).neededNames, env.vars x ≠ none) ∧
    ((∀ x ∈ (Expr.compose f g).neededNames, env.BindsNumber x) →
      env.Determines (Expr.compose f g).neededNames (.compose f g)) ∧
    ((∀ x ∈ f.neededNames, x ∈ f.freeVars) → (∀ x ∈ g.neededNames, x ∈ g.parameterNames ∨ x ∈ f.freeVars) →
      (∀ x ∈ (Expr.compose f g).freeVars, env.BindsNumber x) →
      env.Determines (Expr.compose f g).freeVars (.compose f g)) := by
  refine ⟨?_, ?_, ?_⟩
  · intro depth tag v h
    cases depth with
    | zero => cases h
    | succ depth => exact (Expr.namesIn_iff hcall).mp (namesIn_of_evaluateWith _ h)
  · exact Env.determines_of_neededNames hcall fun x hx => hx
  · intro hf hg
    exact Env.determines_of_neededNames hcall (Expr.forall_mem_neededNames_compose.mpr ⟨hf, hg⟩)

/-- The composition of `f(x) = x` with `h(z) = z * x` through `g(y) = y`. -/
def Expr.throughTwo : Expr :=
  .compose (.custom "f" [.var "x"] (.var "x"))
    (.compose (.custom "g" [.var "y"] (.var "y")) (.custom "h" [.var "z"] (.times (.var "z") (.var "x"))))

/-- Binds `x` to the literal 2. -/
def Env.withTwo : Env Float := Env.empty.bind "x" (.tree (.int 2))

/-- The outer functions look up `x`, which is free in the inner one, so what `z` is bound to does not matter. -/
theorem names_of_composition_throughTwo :
    evaluate (.domain .real) Env.withTwo Expr.throughTwo = .ok (.real 4) ∧
    evaluate (.domain .real) (Env.withTwo.bind "z" (.number 7)) Expr.throughTwo = .ok (.real 4) ∧
    (∀ x ∈ Expr.throughTwo.neededNames, Env.withTwo.vars x ≠ none) ∧
    Env.withTwo.Determines Expr.throughTwo.neededNames Expr.throughTwo := by
  have hvalue : evaluate (.domain .real) Env.withTwo Expr.throughTwo = .ok (.real 4) := rfl
  have hnumber : Env.withTwo.BindsNumber "x" := .inr ⟨.int 2, rfl⟩
  have hfree (x : String) (hx : x ∈ Expr.throughTwo.freeVars) : x = "x" := by
    simpa [Expr.throughTwo, Expr.freeVars, Expr.freeVarsOf] using hx
  have hneeded (x : String) (hx : x ∈ Expr.throughTwo.neededNames) : x = "x" := by
    revert x
    decide
  obtain ⟨hneeds, hdetermines, hfrees⟩ := names_of_composition (f := .custom "f" [.var "x"] (.var "x"))
    (g := .compose (.custom "g" [.var "y"] (.var "y")) (.custom "h" [.var "z"] (.times (.var "z") (.var "x")))) rfl
    Env.withTwo
  have hdetermined := hfrees (fun x hx => Expr.freeVars_of_neededNames rfl hx) (by decide)
    fun x hx => hfree x hx ▸ hnumber
  refine ⟨hvalue, ?_, hneeds _ _ _ hvalue, hdetermines fun x hx => hneeded x hx ▸ hnumber⟩
  refine ((hdetermined defaultDepth (.domain .real)).2 _ fun x hx => ?_).trans hvalue
  rw [hfree x hx]
  rfl

/-- The composition of `f() = 1` with `g(p) = q`. -/
def Expr.looksUpQ : Expr := .compose (.custom "f" [] (.int 1)) (.custom "g" [.var "p"] (.var "q"))

/-- A composition without free names that finds `q` unbound, and gives whatever number `q` is bound to. -/
theorem free_names_of_composition_overlook :
    Expr.looksUpQ.hasCall = false ∧ Expr.looksUpQ.freeVars = [] ∧ Expr.looksUpQ.neededNames = ["q"] ∧
    evaluate (.domain .real) (Env.empty : Env Float) Expr.looksUpQ = .error (.unboundVariable "q") ∧
    ∀ x : Float, evaluate (.domain .real) (Env.empty.bind "q" (.number x)) Expr.looksUpQ = .ok (.real x) :=
  ⟨rfl, rfl, rfl, rfl, fun _ => rfl⟩

end ExprCalculus
