import ExprCalculus.Proofs.Evaluation.Polynomial

/-!
# Derivatives of compositions

Take two functions of one parameter each whose bodies are polynomials in their own parameter.  The derivative of their
composition by the parameter `p` of the inner function is put together from the inner function, the derivatives of
both bodies by `p`, and the parameter that the outer body is evaluated at.  So it obeys the chain rule where the outer
function calls its parameter `p` as well.  Under any other name the derivative of the outer body vanishes, and with it
the whole.

* `evaluate_derive_compose` - the value of the derivative, whatever the parameters are called.
* `derive_compose_value` - the chain rule for one name and zero for two.
* `derive_compose_renamed` - a composition that changes its derivative when the outer parameter is renamed.
-/

namespace ExprCalculus

open MvPolynomial (X eval pderiv)

section

variable [Exact.Functions] {p q : String} {a b : Expr} {P Q : MvPolynomial String ℚ} {env : Env ℚ} {x : ℚ}

/-- A polynomial in one variable, where the variable is bound to a number. -/
theorem Expr.Denotes.evaluate_of_one (ha : a.Denotes P) (hap : ∀ y ∈ a.freeVars, y = p)
    (hx : env.numbers p = some x) (depth : Nat) :
    evaluateUpTo (depth + 2) (.domain .real) env a = .ok (.real (eval (fun _ => x) P)) := by
  obtain ⟨b, hb, hbx⟩ := Option.bind_eq_some_iff.1 hx
  refine ha.evaluateWith_eq (by decide) fun y hy => ?_
  obtain rfl := hap y hy
  exact evaluateUpTo_var_of_number? (by decide) hb hbx

omit [Exact.Functions] in
/-- A derivative has no free names of its own. -/
theorem Expr.Denotes.freeVars_derive (ha : a.Denotes P) (hap : ∀ y ∈ a.freeVars, y = p) {v : String} {d : Expr}
    (hd : Expr.derive v a = .ok d) : ∀ y ∈ d.freeVars, y = p :=
  ((Expr.plainOver_differential {y | y = p}).derive v a d ⟨ha.isPlain, hap⟩ hd).2

omit [Exact.Functions] in
theorem Env.numbers_bind (env : Env ℚ) (q : String) (y : ℚ) : (env.bind q (.number y)).numbers q = some y := by
  simp [Env.numbers, Env.bind, Binding.number?]

/-- Both bodies are differentiated by the parameter of the inner function, whatever the outer one is called. -/
theorem evaluate_derive_compose (f g : String) (ha : a.Denotes P) (hap : ∀ y ∈ a.freeVars, y = p) (hb : b.Denotes Q)
    (hbq : ∀ y ∈ b.freeVars, y = q) (hx : env.numbers p = some x) :
    ∃ d, Expr.derive p (.compose (.custom f [.var p] a) (.custom g [.var q] b)) = .ok d ∧
      evaluate (.domain .real) env d =
        .ok (.real (eval (fun _ => eval (fun _ => x) P) (pderiv p Q) * eval (fun _ => x) (pderiv p P))) := by
  obtain ⟨da, hda, hP⟩ := ha.derive p
  obtain ⟨db, hdb, hQ⟩ := hb.derive p
  set y := eval (fun _ => x) P
  have hinner : evaluate (.domain .real) env (.custom f [.var p] a) = .ok (.real y) :=
    ha.evaluate_of_one hap hx 9998
  have houter : evaluate (.domain .real) (env.bind q (.number y)) (.custom g [.var q] db) =
      .ok (.real (eval (fun _ => y) (pderiv p Q))) :=
    hQ.evaluate_of_one (hb.freeVars_derive hbq hdb) (env.numbers_bind q y) 9998
  have hfirst : evaluate (.domain .real) env (.compose (.custom f [.var p] a) (.custom g [.var q] db)) =
      .ok (.real (eval (fun _ => y) (pderiv p Q))) :=
    (evaluateWith_compose rfl hinner _).trans houter
  have hsecond : evaluate (.domain .real) env (.custom f [.var p] da) =
      .ok (.real (eval (fun _ => x) (pderiv p P))) :=
    hP.evaluate_of_one (ha.freeVars_derive hap hda) hx 9998
  refine ⟨.times (.compose (.custom f [.var p] a) (.custom g [.var q] db)) (.custom f [.var p] da), ?_,
    evaluateWith_binary_of_real (by decide) hfirst hsecond rfl⟩
  simp [Expr.derive, Expr.both, hda, hdb, Except.map, Expr.derivedFunction, Expr.isFunction]

/-- **The chain rule for one name, zero for two**: the derivative of a composition of polynomial functions by the
parameter of the inner one. -/
theorem derive_compose_value (f g : String) (ha : a.Denotes P) (hap : ∀ y ∈ a.freeVars, y = p) (hb : b.Denotes Q)
    (hbq : ∀ y ∈ b.freeVars, y = q) (hx : env.numbers p = some x) :
    ∃ d, Expr.derive p (.compose (.custom f [.var p] a) (.custom g [.var q] b)) = .ok d ∧
      evaluate (.domain .real) env d = .ok (.real
        (if q = p then eval (fun _ => eval (fun _ => x) P) (pderiv q Q) * eval (fun _ => x) (pderiv p P) else 0)) := by
  obtain ⟨d, hd, hvalue⟩ := evaluate_derive_compose f g ha hap hb hbq hx
  refine ⟨d, hd, hvalue.trans ?_⟩
  split
  · rename_i hqp
    rw [hqp]
  · rename_i hqp
    have hfree : p ∉ b.freeVars := fun hp => hqp (hbq p hp).symm
    rw [hb.pderiv_of_not_mem hfree, map_zero, zero_mul]

end

/-- The functions `f(x) = x * x` and `g(x) = 1 - x * x` at three: `g'(9) * f'(3)`. -/
theorem derive_compose_value_squares :
    ∃ d, Expr.derive "x" (.compose (.custom "f" [.var "x"] (.times (.var "x") (.var "x")))
        (.custom "g" [.var "x"] (.minus (.int 1) (.times (.var "x") (.var "x"))))) = .ok d ∧
      evaluate (.domain .real) (Env.empty.bind "x" (.tree (.int 3))) d = .ok (.real (-108 : ℚ)) := by
  have hsquare : (Expr.times (.var "x") (.var "x")).Denotes (X "x" * X "x") := .times (.var "x") (.var "x")
  have hx : (Env.empty.bind "x" (.tree (.int 3)) : Env ℚ).numbers "x" = some 3 := by
    simp [Env.numbers, Env.bind, Binding.number?, Expr.signedNumber?]
  obtain ⟨d, hd, hvalue⟩ := derive_compose_value (q := "x") "f" "g" hsquare (by simp [Expr.freeVars])
    ((Expr.Denotes.int 1).minus hsquare) (by simp [Expr.freeVars]) hx
  refine ⟨d, hd, hvalue.trans ?_⟩
  norm_num [MvPolynomial.pderiv_mul]

/-- The identity after the identity: the derivative at three is zero if the outer parameter has a name of its own, and
one, as the chain rule says, if it has the name of the inner one. -/
theorem derive_compose_renamed :
    (∃ d, Expr.derive "x" (.compose (.custom "f" [.var "x"] (.var "x")) (.custom "g" [.var "u"] (.var "u"))) = .ok d ∧
      evaluate (.domain .real) (Env.empty.bind "x" (.tree (.int 3))) d = .ok (.real (0 : ℚ))) ∧
    (∃ d, Expr.derive "x" (.compose (.custom "f" [.var "x"] (.var "x")) (.custom "g" [.var "x"] (.var "x"))) = .ok d ∧
      evaluate (.domain .real) (Env.empty.bind "x" (.tree (.int 3))) d = .ok (.real (1 : ℚ))) ∧
    eval (fun _ => eval (fun _ => (3 : ℚ)) (X "x")) (pderiv "u" (X "u")) *
      eval (fun _ => 3) (pderiv "x" (X "x")) = 1 := by
  have hx : (Env.empty.bind "x" (.tree (.int 3)) : Env ℚ).numbers "x" = some 3 := by
    simp [Env.numbers, Env.bind, Binding.number?, Expr.signedNumber?]
  refine ⟨?_, ?_, by simp⟩
  · obtain ⟨d, hd, hvalue⟩ := evaluate_derive_compose (q := "u") "f" "g" (.var "x") (by simp [Expr.freeVars]) (.var "u")
      (by simp [Expr.freeVars]) hx
    exact ⟨d, hd, by simpa [MvPolynomial.pderiv_X_of_ne] using hvalue⟩
  · obtain ⟨d, hd, hvalue⟩ := evaluate_derive_compose (q := "x") "f" "g" (.var "x") (by simp [Expr.freeVars]) (.var "x")
      (by simp [Expr.freeVars]) hx
    exact ⟨d, hd, by simpa using hvalue⟩

end ExprCalculus
