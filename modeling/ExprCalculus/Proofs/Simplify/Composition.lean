import ExprCalculus.Proofs.Evaluation.Polynomial
import ExprCalculus.Proofs.Interval.Rational

/-!
# Simplifying compositions

The outer function of a composition takes a number for each of its arguments.  An argument that is a variable names
the parameter that is bound to the number; any other argument is fixed, and ignores it.  A pass keeps the arguments of
a custom function and simplifies the argument of a default function.  A named argument stays what it is.  A fixed one
may become a variable, and then names a parameter that it did not name before.

* `simplify_polynomialFunction` - a pass keeps the value of a function that a polynomial makes.
* `named_of_simplify` - a named argument stays.
* `simplify_compose_value` - a pass keeps the value of a composition in which every fixed argument stays fixed.
* `simplify_compose_unfixed` - a composition with an argument that does not stay fixed changes its value.
-/

namespace ExprCalculus

open Exact

/-- The default functions that are constant or linear between two jumps. -/
def Fn.IsPiecewise : Fn → Prop
  | .abs | .ceil | .floor | .sgn => True
  | _ => False

namespace Expr

/-- A custom function whose body is a polynomial, or one of these default functions of a polynomial. -/
inductive PolynomialFunction : Expr → Prop where
  | custom (name : String) (params : List Expr) {body : Expr} {P : MvPolynomial String ℚ} (h : body.Denotes P) :
    PolynomialFunction (.custom name params body)
  | apply {fn : Fn} (hfn : fn.IsPiecewise) {a : Expr} {P : MvPolynomial String ℚ} (h : a.Denotes P) :
    PolynomialFunction (.apply fn a)

/-- The tree that a function evaluates, by itself or before it is applied. -/
def formula : Expr → Expr
  | .custom _ _ body => body
  | .apply _ a => a
  | e => e

variable {f g a : Expr} {P : MvPolynomial String ℚ} {fn : Fn}

theorem simplifyFunction_of_denotes (hfn : fn.IsPiecewise) (ha : a.Denotes P) :
    simplifyFunction fn a = .apply fn a := by
  have hround (fn : Fn) : simplifyRounding fn a = .apply fn a := by cases ha <;> rfl
  cases fn with
  | abs | sgn => rfl
  | ceil => exact hround .ceil
  | floor => exact hround .floor
  | _ => cases hfn

theorem simplify_apply (hfn : fn.IsPiecewise) (ha : a.Denotes P) :
    simplify (.apply fn a) = .apply fn a.simplify :=
  simplifyFunction_of_denotes hfn ha.simplify

theorem PolynomialFunction.isFunction_simplify (hf : f.PolynomialFunction) : f.simplify.isFunction = true := by
  cases hf with
  | custom => rfl
  | apply hfn h => rw [simplify_apply hfn h]; rfl

theorem simplify_compose (hf : f.PolynomialFunction) (hg : g.PolynomialFunction) :
    simplify (.compose f g) = .compose f.simplify g.simplify := by
  rw [simplify, asFunction, asFunction, if_pos hf.isFunction_simplify, if_pos hg.isFunction_simplify]

theorem PolynomialFunction.length_args_simplify (hg : g.PolynomialFunction) :
    g.simplify.args.length = g.args.length := by
  cases hg with
  | custom => rfl
  | apply hfn h => rw [simplify_apply hfn h]; rfl

/-- A named argument stays. -/
theorem PolynomialFunction.named_of_simplify (hg : g.PolynomialFunction) {i : Nat} {q : String}
    (h : g.args[i]? = some (.var q)) : g.simplify.args[i]? = some (.var q) := by
  cases hg with
  | custom => exact h
  | @apply fn hfn a _ ha =>
    rw [simplify_apply hfn ha]
    cases i with
    | zero =>
      obtain rfl : a = .var q := by simpa [args] using h
      rfl
    | succ i => cases h

end Expr

section Evaluation

variable {bound : Tag → Env ℚ → Expr → Outcome ℚ} {env : Env ℚ} {f g a : Expr} {P : MvPolynomial String ℚ} {fn : Fn}
  {depth : Nat} {v : Value ℚ}

/-! ## Functions -/

/-- The names that a tree needs are bound to numbers, where they are bound. -/
def Env.BindsNumbers (env : Env ℚ) (names : List String) : Prop :=
  ∀ x ∈ names, ∀ b, env.vars x = some b → b.number?.isSome

/-- A polynomial that has a value has its free names bound to numbers. -/
theorem Env.BindsNumbers.isSome (h : env.BindsNumbers a.freeVars) (ha : a.Denotes P) {tag : Tag}
    (hv : evaluateWith bound a tag env = .ok v) : ∀ x ∈ a.freeVars, (env.numbers x).isSome := by
  intro x hx
  obtain ⟨b, hb⟩ := Option.ne_none_iff_exists'.1 (ha.bound_of_evaluate hv x hx)
  simpa [Env.numbers, hb] using h x hx b hb

/-- A polynomial that has a value keeps it when simplified, and the value is a number. -/
theorem Expr.Denotes.evaluate_simplify (ha : a.Denotes P) (h : env.BindsNumbers a.freeVars) {d : Domain}
    (hd : d ≠ .interval) (hv : evaluateUpTo (depth + 2) (.domain d) env a = .ok v) :
    (∃ x, v = .real x) ∧ evaluateUpTo (depth + 2) (.domain d) env a.simplify = .ok v := by
  have hnumbers := h.isSome ha hv
  rw [ha.evaluate hd hnumbers] at hv
  cases hv
  exact ⟨⟨_, rfl⟩, ha.simplify.evaluate hd (fun x hx => hnumbers x (ha.freeVars_simplify x hx)) depth⟩

theorem function_of_isPiecewise (hfn : fn.IsPiecewise) (x : ℚ) : ∃ y, Scalar.function fn x = .ok y := by
  cases fn with
  | abs | ceil | floor | sgn => exact ⟨_, rfl⟩
  | _ => cases hfn

/-- A pass keeps the value of a function that a polynomial makes, and the value is a number. -/
theorem simplify_polynomialFunction (hf : f.PolynomialFunction) (h : env.BindsNumbers f.formula.freeVars)
    (hv : evaluateUpTo (depth + 2) (.domain .real) env f = .ok v) :
    (∃ x, v = .real x) ∧ evaluateUpTo (depth + 2) (.domain .real) env f.simplify = .ok v := by
  cases hf with
  | custom _ _ hb => exact hb.evaluate_simplify h (by decide) hv
  | @apply fn hfn a _ ha =>
    rw [Expr.simplify_apply hfn ha]
    simp only [evaluateUpTo, evaluateWith, Fn.hasValues, if_true] at hv ⊢
    split at hv
    · cases hv
    rename_i w hw
    have hw : evaluateUpTo (depth + 2) (.domain .real) env a = .ok w := hw
    obtain ⟨⟨x, rfl⟩, hsimp⟩ := ha.evaluate_simplify h (by decide) hw
    obtain ⟨y, hy⟩ := function_of_isPiecewise hfn x
    simp only [evaluateUpTo] at hsimp
    rw [hsimp]
    simp only [applyFunction, hy, Except.map, Outcome.ofArithmetic] at hv ⊢
    exact ⟨⟨y, by cases hv; rfl⟩, hv⟩

/-- Such a function is no vector. -/
theorem not_vector_of_polynomialFunction (hf : f.PolynomialFunction) (h : env.BindsNumbers f.formula.freeVars)
    (hv : evaluateUpTo (depth + 2) (.domain .vector) env f = .ok v) : ∃ x, v = .real x := by
  cases hf with
  | custom _ _ hb => exact (hb.evaluate_simplify h (by decide) hv).1
  | apply hfn ha => cases hv

/-! ## Compositions -/

/-- A composition that has a value hands one number to the outer function, if the inner one is never a vector. -/
theorem evaluateWith_compose_ok {tag : Tag}
    (hf : ∀ d w, d ≠ .interval → evaluateWith bound f (.domain d) env = .ok w → ∃ x, w = .real x)
    (hv : evaluateWith bound (.compose f g) tag env = .ok v) :
    g.args.length = 1 ∧ ∃ x, evaluateWith bound f (.domain .real) env = .ok (.real x) ∧
      evaluateWith bound g tag (env.bindArguments g.args [x]) = .ok v := by
  obtain ⟨-, xs, ⟨w, hw, hover⟩, hg⟩ := evaluateWith_compose_iff.1 hv
  rw [handedOver_eq_ok_iff] at hover
  by_cases hdim : g.args.length = 1
  · rw [hdim] at hw
    obtain ⟨x, rfl⟩ := hf .real w (by decide) hw
    rw [if_pos hdim] at hover
    obtain ⟨y, hy, rfl⟩ := hover
    cases hy
    exact ⟨hdim, x, hw, hg⟩
  · rw [innerTag, if_neg hdim] at hw
    obtain ⟨x, rfl⟩ := hf .vector w (by decide) hw
    rw [if_neg hdim] at hover
    cases hover.1

/-- Arguments that name the same parameters bind alike. -/
theorem Env.bindArguments_congr {as bs : List Expr} (h : as.map Expr.parameterName? = bs.map Expr.parameterName?)
    (env : Env ℚ) (xs : List ℚ) : env.bindArguments as xs = env.bindArguments bs xs := by
  induction as generalizing bs env xs with
  | nil =>
    obtain rfl : bs = [] := by simpa using h.symm
    rfl
  | cons a as ih =>
    cases bs with
    | nil => cases h
    | cons b bs =>
      obtain ⟨hhead, htail⟩ := List.cons.inj h
      cases xs with
      | nil => rfl
      | cons x xs =>
        simp only [Env.bindArguments, hhead, ih htail]

/-- The arguments of the outer function are bound to numbers, and all else as before. -/
theorem Env.BindsNumbers.bindArguments {names : List String} (h : env.BindsNumbers names) (args : List Expr)
    (xs : List ℚ) : (env.bindArguments args xs).BindsNumbers names := by
  induction args generalizing env xs with
  | nil => simpa [Env.bindArguments] using h
  | cons a as ih =>
    cases xs with
    | nil => simpa [Env.bindArguments] using h
    | cons x xs =>
      simp only [Env.bindArguments]
      split
      · refine ih (fun y hy b hb => ?_) xs
        simp only [Env.bind] at hb
        split at hb
        · cases hb
          rfl
        · exact h y hy b hb
      · exact ih h xs

theorem parameterName?_eq_some_iff {q : String} : a.parameterName? = some q ↔ a = .var q := by
  cases a <;> simp [Expr.parameterName?]

/-- The arguments name the same parameters after a pass, if no fixed one has become a variable. -/
theorem map_parameterName?_simplify (hg : g.PolynomialFunction)
    (hfixed : ∀ q, Expr.var q ∈ g.simplify.args → Expr.var q ∈ g.args) :
    g.simplify.args.map Expr.parameterName? = g.args.map Expr.parameterName? := by
  cases hg with
  | custom => rfl
  | @apply fn hfn a _ ha =>
    rw [Expr.simplify_apply hfn ha] at hfixed ⊢
    have hname : a.simplify.parameterName? = a.parameterName? := by
      refine Option.ext fun q => ?_
      rw [parameterName?_eq_some_iff, parameterName?_eq_some_iff]
      constructor
      · intro h
        exact (List.mem_singleton.1 (hfixed q (List.mem_singleton.2 h.symm))).symm
      · rintro rfl
        rfl
    exact congrArg (fun o => [o]) hname

/-- **A pass keeps the value of a composition** of functions that polynomials make, where the names they need are bound
to numbers.  A named argument of the outer function stays the same; that a fixed one does not become a variable has to
be asked for. -/
theorem simplify_compose_value (hf : f.PolynomialFunction) (hg : g.PolynomialFunction)
    (hnumbers : env.BindsNumbers (f.formula.freeVars ++ g.formula.freeVars)) :
    (∀ (i : Nat) (q : String), g.args[i]? = some (.var q) → g.simplify.args[i]? = some (.var q)) ∧
    ((∀ q, Expr.var q ∈ g.simplify.args → Expr.var q ∈ g.args) →
      ∀ v, evaluate (.domain .real) env (.compose f g) = .ok v →
        evaluate (.domain .real) env (Expr.simplify (.compose f g)) = .ok v) := by
  have hnumbersF : env.BindsNumbers f.formula.freeVars := fun x hx => hnumbers x (List.mem_append_left _ hx)
  have hnumbersG : env.BindsNumbers g.formula.freeVars := fun x hx => hnumbers x (List.mem_append_right _ hx)
  refine ⟨fun i q => hg.named_of_simplify, fun hfixed v hv => ?_⟩
  have hreal : ∀ d w, d ≠ .interval → evaluateUpTo (9998 + 2) (.domain d) env f = .ok w → ∃ x, w = .real x := by
    intro d w hd hw
    cases d with
    | real => exact (simplify_polynomialFunction hf hnumbersF hw).1
    | vector => exact not_vector_of_polynomialFunction hf hnumbersF hw
    | interval => exact absurd rfl hd
  obtain ⟨hdim, x, hinner, houter⟩ := evaluateWith_compose_ok hreal hv
  have hinner : evaluateUpTo (9998 + 2) (.domain .real) env f = .ok (.real x) := hinner
  have houter : evaluateUpTo (9998 + 2) (.domain .real) (env.bindArguments g.args [x]) g = .ok v := houter
  have hinner' := (simplify_polynomialFunction hf hnumbersF hinner).2
  have houter' := (simplify_polynomialFunction hg (hnumbersG.bindArguments g.args [x]) houter).2
  rw [Env.bindArguments_congr (map_parameterName?_simplify hg hfixed).symm] at houter'
  rw [Expr.simplify_compose hf hg]
  exact (evaluateWith_compose (hg.length_args_simplify.trans hdim) hinner' _).trans houter'

end Evaluation

/-- Binds `t` to two and `y` to minus three. -/
def Env.twoAndMinusThree : Env ℚ := (Env.empty.bind "t" (.tree (.int 2))).bind "y" (.tree (.neg (.int 3)))

theorem Env.twoAndMinusThree_bindsNumbers (names : List String) : Env.twoAndMinusThree.BindsNumbers names := by
  intro x _ b hb
  simp only [Env.twoAndMinusThree, Env.bind, Env.empty] at hb
  split at hb
  · cases hb
    rfl
  · split at hb
    · cases hb
      rfl
    · cases hb

theorem Outcome.eq_ok_of_toOption {o : Outcome ℚ} {v : Value ℚ} (h : o.toOption = some v) : o = .ok v := by
  cases o with
  | error e => cases h
  | ok w =>
    cases h
    rfl

/-- The absolute value of `y + 1` after the function `t * 1`: the argument `y + 1` is fixed and stays so. -/
theorem simplify_compose_value_fixed :
    evaluate (.domain .real) Env.twoAndMinusThree (Expr.simplify (.compose
      (.custom "f" [.var "t"] (.times (.var "t") (.int 1))) (.apply .abs (.plus (.var "y") (.int 1))))) =
        .ok (.real 2) := by
  have hf : (Expr.custom "f" [.var "t"] (.times (.var "t") (.int 1))).PolynomialFunction :=
    .custom "f" _ ((Expr.Denotes.var "t").times (.int 1))
  have habs : Fn.abs.IsPiecewise := trivial
  have hg : (Expr.apply .abs (.plus (.var "y") (.int 1))).PolynomialFunction :=
    .apply habs ((Expr.Denotes.var "y").plus (.int 1))
  have hargs : (Expr.apply .abs (.plus (.var "y") (.int 1))).simplify.args = [.plus (.var "y") (.int 1)] := by rfl
  refine (simplify_compose_value hf hg (Env.twoAndMinusThree_bindsNumbers _)).2 ?_ _ ?_
  · simp [hargs, Expr.args]
  · exact Outcome.eq_ok_of_toOption (by decide +kernel)

/-- The absolute value of the fixed `y` after a function that is five: a pass makes the fixed argument the parameter
`y`, and the value five instead of three. -/
theorem simplify_compose_unfixed :
    evaluate (.domain .real) Env.twoAndMinusThree (.compose (.custom "f" [.var "t"] (.int 5))
      (.apply .abs (.fixed (.var "y")))) = .ok (.real 3) ∧
    evaluate (.domain .real) Env.twoAndMinusThree (Expr.simplify (.compose (.custom "f" [.var "t"] (.int 5))
      (.apply .abs (.fixed (.var "y"))))) = .ok (.real 5) :=
  ⟨Outcome.eq_ok_of_toOption (by decide +kernel), Outcome.eq_ok_of_toOption (by decide +kernel)⟩

end ExprCalculus
