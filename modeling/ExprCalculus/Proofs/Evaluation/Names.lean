import Mathlib.Data.Set.Basic
import Mathlib.Data.Option.Basic
import ExprCalculus.Proofs.Evaluation.SameWorth

/-!
# The names that an evaluation looks up

What an expression evaluates to depends on what the names that it looks up are bound to, on nothing else.  A name is
looked up where it is evaluated, through any number of bindings, but not as a parameter that a composition binds
first.

* `Expr.NamesIn` — sets that hold the names an expression looks up itself.
* `HandsOver`, `evaluateWith_compose_iff` — what a composition needs for a value.
* `Env.Alike`, `evaluateUpTo_alike` — two environments that bind the names looked up alike give one outcome.
* `Env.LeadsTo` — what the names looked up are bound to.
-/

namespace ExprCalculus

/-! ## Names -/

namespace Expr

/-- The names of a function's parameters. -/
def parameterNames (e : Expr) : List String := e.args.filterMap parameterName?

mutual

/-- Whether the variables that an expression looks up are in `V`, and the functions it calls in `F`.  A composition
binds the parameters of the outer function before it evaluates it. -/
def NamesIn : Expr → Set String → Set String → Prop
  | .number _, _, _ => True
  | .var x, V, _ => x ∈ V
  | .call f, _, F => f ∈ F
  | .fixed e, V, F => NamesIn e V F
  | .vector es, V, F => AllNamesIn es V F
  | .interval a b, V, F | .binary _ a b, V, F | .log a b, V, F => NamesIn a V F ∧ NamesIn b V F
  | .neg a, V, F | .apply _ a, V, F | .root _ a, V, F => NamesIn a V F
  | .custom _ _ body, V, F => NamesIn body V F
  | .compose f g, V, F => NamesIn f V F ∧ NamesIn g (V ∪ {x | x ∈ g.parameterNames}) F

/-- Whether that holds of all the expressions. -/
def AllNamesIn : List Expr → Set String → Set String → Prop
  | [], _, _ => True
  | e :: es, V, F => NamesIn e V F ∧ AllNamesIn es V F

end

mutual

theorem NamesIn.mono {F : Set String} :
    ∀ (e : Expr) {V W : Set String}, V ⊆ W → e.NamesIn V F → e.NamesIn W F
  | .number _, _, _, _, _ => trivial
  | .var _, _, _, hVW, h => hVW h
  | .call _, _, _, _, h => h
  | .fixed e, _, _, hVW, h | .neg e, _, _, hVW, h | .apply _ e, _, _, hVW, h | .root _ e, _, _, hVW, h
  | .custom _ _ e, _, _, hVW, h => NamesIn.mono e hVW h
  | .vector es, _, _, hVW, h => AllNamesIn.mono es hVW h
  | .interval a b, _, _, hVW, h | .binary _ a b, _, _, hVW, h | .log a b, _, _, hVW, h =>
    ⟨NamesIn.mono a hVW h.1, NamesIn.mono b hVW h.2⟩
  | .compose f g, _, _, hVW, h =>
    ⟨NamesIn.mono f hVW h.1, NamesIn.mono g (Set.union_subset_union_left _ hVW) h.2⟩

theorem AllNamesIn.mono {F : Set String} :
    ∀ (es : List Expr) {V W : Set String}, V ⊆ W → AllNamesIn es V F → AllNamesIn es W F
  | [], _, _, _, _ => trivial
  | e :: es, _, _, hVW, h => ⟨NamesIn.mono e hVW h.1, AllNamesIn.mono es hVW h.2⟩

end

mutual

theorem namesIn_univ : ∀ e : Expr, e.NamesIn Set.univ Set.univ
  | .number _ => trivial
  | .var x | .call x => Set.mem_univ x
  | .fixed e | .neg e | .apply _ e | .root _ e | .custom _ _ e => namesIn_univ e
  | .vector es => allNamesIn_univ es
  | .interval a b | .binary _ a b | .log a b => ⟨namesIn_univ a, namesIn_univ b⟩
  | .compose f g => ⟨namesIn_univ f, NamesIn.mono g Set.subset_union_left (namesIn_univ g)⟩

theorem allNamesIn_univ : ∀ es : List Expr, AllNamesIn es Set.univ Set.univ
  | [] => trivial
  | e :: es => ⟨namesIn_univ e, allNamesIn_univ es⟩

end

end Expr

/-! ## Bindings of parameters -/

section Parameters

variable {α : Type} {args : List Expr} {x : String}

theorem Env.bindArguments_funcs (env : Env α) (xs : List α) : (env.bindArguments args xs).funcs = env.funcs := by
  induction args generalizing env xs with
  | nil => simp [Env.bindArguments]
  | cons a as ih =>
    cases xs with
    | nil => simp [Env.bindArguments]
    | cons y ys =>
      rw [Env.bindArguments]
      split
      · rw [ih]
        rfl
      · rw [ih]

/-- Only parameters are bound. -/
theorem Env.bindArguments_of_not_mem (hx : x ∉ args.filterMap Expr.parameterName?) (env : Env α) (xs : List α) :
    (env.bindArguments args xs).vars x = env.vars x := by
  induction args generalizing env xs with
  | nil => simp [Env.bindArguments]
  | cons a as ih =>
    cases xs with
    | nil => simp [Env.bindArguments]
    | cons y ys =>
      rw [List.filterMap_cons] at hx
      rw [Env.bindArguments]
      split
      · rename_i name hname
        rw [hname, List.mem_cons, not_or] at hx
        rw [ih hx.2]
        exact if_neg hx.1
      · rename_i hname
        rw [hname] at hx
        exact ih hx env ys

/-- A parameter is bound to a number, the same whatever was bound before. -/
theorem Env.exists_bindArguments {xs : List α} (hlength : xs.length = args.length)
    (hx : x ∈ args.filterMap Expr.parameterName?) :
    ∃ y, ∀ env : Env α, (env.bindArguments args xs).vars x = some (.number y) := by
  induction args generalizing xs with
  | nil => cases hx
  | cons a as ih =>
    cases xs with
    | nil => cases hlength
    | cons y ys =>
      by_cases hlater : x ∈ as.filterMap Expr.parameterName?
      · obtain ⟨z, hz⟩ := ih (Nat.succ.inj hlength) hlater
        refine ⟨z, fun env => ?_⟩
        rw [Env.bindArguments]
        split
        · exact hz _
        · exact hz _
      · obtain ⟨b, hb, hname⟩ := List.mem_filterMap.1 hx
        obtain rfl | hb := List.mem_cons.1 hb
        · refine ⟨y, fun env => ?_⟩
          rw [Env.bindArguments, hname]
          simp only
          rw [Env.bindArguments_of_not_mem hlater]
          exact if_pos rfl
        · exact absurd (List.mem_filterMap.2 ⟨b, hb, hname⟩) hlater

end Parameters

/-! ## Environments that bind names alike -/

/-- Bindings to one number, or to two expressions that belong together. -/
inductive Binding.Alike {α : Type} (T : Expr → Expr → Prop) : Binding α → Binding α → Prop where
  | number (x : α) : Alike T (.number x) (.number x)
  | tree {e e' : Expr} (h : T e e') : Alike T (.tree e) (.tree e')

/-- Two environments that bind the variables of `V` and the functions of `F` alike, where they bind them; `T` says
which expressions belong together. -/
structure Env.Alike {α : Type} (T : Expr → Expr → Prop) (V F : Set String) (env env' : Env α) : Prop where
  vars : ∀ x ∈ V, Option.Rel (Binding.Alike T) (env.vars x) (env'.vars x)
  funcs : ∀ f ∈ F, Option.Rel T (env.funcs f) (env'.funcs f)

variable {T : Expr → Expr → Prop} {V V₀ F : Set String}

/-- Environments stay alike when parameters are bound to numbers, and are then alike on the parameters too. -/
theorem Env.Alike.bindArguments {α : Type} {env env' : Env α} (h : env.Alike T V F env') {g : Expr} {xs : List α}
    (hlength : xs.length = g.args.length) :
    (env.bindArguments g.args xs).Alike T (V ∪ {x | x ∈ g.parameterNames}) F (env'.bindArguments g.args xs) where
  vars x hx := by
    by_cases hparam : x ∈ g.parameterNames
    · obtain ⟨y, hy⟩ := Env.exists_bindArguments hlength hparam
      rw [hy, hy]
      exact .some (.number y)
    · rw [Env.bindArguments_of_not_mem hparam, Env.bindArguments_of_not_mem hparam]
      exact h.vars x (hx.resolve_right hparam)
  funcs := by
    rw [Env.bindArguments_funcs, Env.bindArguments_funcs]
    exact h.funcs

/-! ## What a composition hands over -/

/-- One number, or the components of a vector of as many; the name of the inner function is for the blame alone. -/
theorem handedOver_eq_ok_iff {α : Type} {inner : String} {dimension : Nat} {v : Value α} {xs : List α} :
    handedOver inner dimension v = .ok xs ↔
      if dimension = 1 then ∃ x, v.number = .ok x ∧ xs = [x] else v = .vector xs ∧ xs.length = dimension := by
  unfold handedOver
  split
  · cases v.number with
    | ok x => simp only [Except.ok.injEq, exists_eq_left', eq_comm]
    | error fault => simp
  · cases v with
    | vector ys =>
      by_cases hlength : ys.length = dimension
      · simp only [if_pos hlength, Except.ok.injEq, Value.vector.injEq]
        refine ⟨?_, And.left⟩
        rintro rfl
        exact ⟨rfl, hlength⟩
      · simp only [if_neg hlength, Value.vector.injEq]
        refine ⟨nofun, ?_⟩
        rintro ⟨rfl, h⟩
        exact absurd h hlength
    | real | interval => simp

theorem handedOver_length {α : Type} {inner : String} {dimension : Nat} {v : Value α} {xs : List α}
    (h : handedOver inner dimension v = .ok xs) : xs.length = dimension := by
  rw [handedOver_eq_ok_iff] at h
  split at h
  · rename_i hone
    obtain ⟨x, -, rfl⟩ := h
    exact hone.symm
  · exact h.2

variable {α : Type} [Scalar α]

section Composition

variable {bound : Tag → Env α → Expr → Outcome α} {f g : Expr} {env : Env α} {dimension : Nat} {xs : List α}

/-- Whether an inner function hands these numbers over to an outer one of so many arguments. -/
def HandsOver (bound : Tag → Env α → Expr → Outcome α) (f : Expr) (dimension : Nat) (env : Env α) (xs : List α) :
    Prop :=
  ∃ w, evaluateWith bound f (innerTag dimension) env = .ok w ∧ handedOver f.functionName dimension w = .ok xs

theorem HandsOver.length (h : HandsOver bound f dimension env xs) : xs.length = dimension := by
  obtain ⟨w, -, hover⟩ := h
  exact handedOver_length hover

/-- A composition has the value of its outer function, where that has its parameters bound to what is handed over. -/
theorem evaluateWith_compose_iff {tag : Tag} {v : Value α} :
    evaluateWith bound (.compose f g) tag env = .ok v ↔
      (1 ≤ g.args.length ∧ g.args.length ≤ 4) ∧
        ∃ xs, HandsOver bound f g.args.length env xs ∧
          evaluateWith bound g tag (env.bindArguments g.args xs) = .ok v := by
  constructor
  · intro h
    simp only [evaluateWith] at h
    split at h
    · cases h
    rename_i hdim
    split at h
    · cases h
    rename_i w hw
    split at h
    · cases h
    rename_i xs hover
    exact ⟨by omega, xs, ⟨w, hw, hover⟩, h⟩
  · rintro ⟨hdim, xs, ⟨w, hw, hover⟩, hg⟩
    have hdim : ¬(g.args.length = 0 ∨ 4 < g.args.length) := by omega
    simp only [evaluateWith, if_neg hdim, hw, hover, hg]

end Composition

/-! ## Evaluations in environments that bind names alike -/

section Congruence

variable {bound bound' : Tag → Env α → Expr → Outcome α}

mutual

/-- Alike environments give one outcome, if they do so for the expressions that names are bound to. -/
theorem evaluateWith_alike
    (hbound : ∀ {V : Set String} {env env' : Env α}, V₀ ⊆ V → env.Alike T V F env' →
      ∀ {e e' : Expr}, T e e' → ∀ tag, bound tag env e = bound' tag env' e') :
    ∀ (e : Expr) (tag : Tag) {V : Set String} {env env' : Env α}, V₀ ⊆ V → env.Alike T V F env' →
      e.NamesIn V F → evaluateWith bound e tag env = evaluateWith bound' e tag env'
  | .number _, _, _, _, _, _, _, _ => by simp only [evaluateWith]
  | .var x, tag, V, env, env', hV, halike, h => by
    rw [evaluateWith, evaluateWith]
    have hx := halike.vars x h
    revert hx
    generalize env.vars x = b, env'.vars x = b'
    rintro (hb | _)
    · cases hb with
      | number y => rfl
      | tree hT => exact hbound hV halike hT tag
    · rfl
  | .call f, tag, V, env, env', hV, halike, h => by
    rw [evaluateWith, evaluateWith]
    have hf := halike.funcs f h
    revert hf
    generalize env.funcs f = b, env'.funcs f = b'
    rintro (hT | _)
    · exact hbound hV halike hT tag
    · rfl
  | .fixed e, tag, _, _, _, hV, halike, h => by
    simp only [evaluateWith, evaluateWith_alike hbound e _ hV halike h]
  | .vector es, tag, _, _, _, hV, halike, h => by
    simp only [evaluateWith, evaluateAll_alike hbound es _ hV halike h]
  | .interval a b, tag, _, _, _, hV, halike, h => by
    simp only [evaluateWith, evaluateWith_alike hbound a _ hV halike h.1,
      evaluateWith_alike hbound b _ hV halike h.2]
  | .binary op a b, tag, _, _, _, hV, halike, h => by
    simp only [evaluateWith, evaluateWith_alike hbound a _ hV halike h.1,
      evaluateWith_alike hbound b _ hV halike h.2]
  | .neg a, tag, _, _, _, hV, halike, h => by
    simp only [evaluateWith, evaluateWith_alike hbound a _ hV halike h]
  | .apply fn a, tag, _, _, _, hV, halike, h => by
    simp only [evaluateWith, evaluateWith_alike hbound a _ hV halike h]
  | .log a b, tag, _, _, _, hV, halike, h => by
    simp only [evaluateWith, evaluateWith_alike hbound a _ hV halike h.1,
      evaluateWith_alike hbound b _ hV halike h.2]
  | .root n a, tag, _, _, _, hV, halike, h => by
    simp only [evaluateWith, evaluateWith_alike hbound a _ hV halike h]
  | .custom _ _ body, tag, _, _, _, hV, halike, h => by
    simp only [evaluateWith, evaluateWith_alike hbound body _ hV halike h]
  | .compose f g, tag, V, env, env', hV, halike, h => by
    simp only [evaluateWith, evaluateWith_alike hbound f _ hV halike h.1]
    split
    · rfl
    split
    · rfl
    split
    · rfl
    · rename_i hover
      have hbind := halike.bindArguments (handedOver_length hover)
      exact evaluateWith_alike hbound g tag (hV.trans Set.subset_union_left) hbind h.2

theorem evaluateAll_alike
    (hbound : ∀ {V : Set String} {env env' : Env α}, V₀ ⊆ V → env.Alike T V F env' →
      ∀ {e e' : Expr}, T e e' → ∀ tag, bound tag env e = bound' tag env' e') :
    ∀ (es : List Expr) (tag : Tag) {V : Set String} {env env' : Env α}, V₀ ⊆ V → env.Alike T V F env' →
      Expr.AllNamesIn es V F → evaluateAll bound es tag env = evaluateAll bound' es tag env'
  | [], _, _, _, _, _, _, _ => by simp only [evaluateAll]
  | e :: es, tag, _, _, _, hV, halike, h => by
    simp only [evaluateAll, evaluateWith_alike hbound e _ hV halike h.1,
      evaluateAll_alike hbound es _ hV halike h.2]

end

end Congruence

/-! ## Bindings through any number of names -/

variable {same : Num → Num → Bool}

/-- Two expressions that look up names of `V` and `F` and differ only in literals of one worth. -/
def Expr.Paired (same : Num → Num → Bool) (V F : Set String) (e e' : Expr) : Prop :=
  e.NamesIn V F ∧ Expr.sameBy same e e' = true

/-- **An evaluation depends on nothing but the names it looks up**, directly and through bindings: two environments
that bind these alike give one outcome. -/
theorem evaluateUpTo_alike
    (hsame : ∀ m n, same m n = true → (Scalar.ofNum? m : Option α) = Scalar.ofNum? n) {env env' : Env α}
    (halike : env.Alike (Expr.Paired same V F) V F env') {e : Expr} (he : e.NamesIn V F) (depth : Nat) (tag : Tag) :
    evaluateUpTo depth tag env e = evaluateUpTo depth tag env' e := by
  -- on the way compositions bind more names, to numbers
  have general : ∀ depth {W : Set String} {env env' : Env α}, V ⊆ W → env.Alike (Expr.Paired same V F) W F env' →
      ∀ {e : Expr}, e.NamesIn W F → ∀ tag, evaluateUpTo depth tag env e = evaluateUpTo depth tag env' e := by
    intro depth
    induction depth with
    | zero =>
      intros
      rfl
    | succ depth ih =>
      intro W env env' hW halike e he tag
      refine evaluateWith_alike (fun hW halike e e' hpaired tag => ?_) e tag hW halike he
      exact (ih hW halike (hpaired.1.mono e hW) tag).trans (evaluateUpTo_of_sameBy hsame hpaired.2 depth tag _)
  exact general depth subset_rfl halike he tag

/-! ## What names lead to -/

/-- An environment that binds the variables of `V` and the functions of `F`, if at all, to expressions with the property
`T`; variables may be bound to numbers too. -/
structure Env.LeadsTo {α : Type} (T : Expr → Prop) (V F : Set String) (env : Env α) : Prop where
  vars : ∀ x ∈ V, ∀ e, env.vars x = some (.tree e) → T e
  funcs : ∀ f ∈ F, ∀ e, env.funcs f = some e → T e

theorem Env.LeadsTo.imp {α : Type} {T T' : Expr → Prop} {env : Env α} (h : env.LeadsTo T V F)
    (himp : ∀ e, T e → T' e) : env.LeadsTo T' V F where
  vars x hx e he := himp e (h.vars x hx e he)
  funcs f hf e he := himp e (h.funcs f hf e he)

/-- The parameters that a composition binds lead to numbers. -/
theorem Env.LeadsTo.bindArguments {α : Type} {T : Expr → Prop} {env : Env α} (h : env.LeadsTo T V F) {g : Expr}
    {xs : List α} (hlength : xs.length = g.args.length) :
    (env.bindArguments g.args xs).LeadsTo T (V ∪ {x | x ∈ g.parameterNames}) F where
  vars x hx e he := by
    by_cases hparam : x ∈ g.parameterNames
    · obtain ⟨y, hy⟩ := Env.exists_bindArguments hlength hparam
      rw [hy env] at he
      cases he
    · rw [Env.bindArguments_of_not_mem hparam] at he
      exact h.vars x (hx.resolve_right hparam) e he
  funcs := by
    rw [Env.bindArguments_funcs]
    exact h.funcs

/-- Names that lead to names of `V` and `F` again, and that another environment binds alike, are bound to pairs. -/
theorem Env.LeadsTo.paired {α : Type} {env env' : Env α} (h : env.LeadsTo (·.NamesIn V F) V F)
    (halike : env.Alike (fun e e' => Expr.sameBy same e e' = true) V F env') :
    env.Alike (Expr.Paired same V F) V F env' where
  vars x hx := by
    have htree := h.vars x hx
    have hx := halike.vars x hx
    revert htree hx
    generalize env.vars x = b, env'.vars x = b'
    rintro htree (hrel | _)
    · cases hrel with
      | number y => exact .some (.number y)
      | tree hsame => exact .some (.tree ⟨htree _ rfl, hsame⟩)
    · exact .none
  funcs f hf := by
    have htree := h.funcs f hf
    have hf := halike.funcs f hf
    revert htree hf
    generalize env.funcs f = b, env'.funcs f = b'
    rintro htree (hsame | _)
    · exact .some ⟨htree _ rfl, hsame⟩
    · exact .none

end ExprCalculus
