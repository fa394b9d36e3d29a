import Mathlib.Algebra.MvPolynomial.PDeriv
import ExprCalculus.Proofs.Evaluation.FreeNames
import ExprCalculus.Proofs.Interval.Enclosure

/-!
# Trees that are polynomials

A tree of numbers and variables under sums, differences, products and negatives denotes a polynomial over the
rational numbers.  All that happens to such a tree happens to the polynomial.

* `Denotes.derive` - the derivative of the tree denotes the partial derivative of the polynomial.
* `Denotes.simplify` - a pass of simplification keeps the polynomial.
* `Denotes.evaluate` - where the free names are bound to numbers, the value of the tree is that of the polynomial.
* `Denotes.bound_of_evaluate` - where the tree has a value, its free names are bound.
-/

namespace ExprCalculus

open MvPolynomial (C X pderiv)

namespace Expr

/-- The tree denotes the polynomial. -/
inductive Denotes : Expr → MvPolynomial String ℚ → Prop where
  | number {v : Num} {q : ℚ} (h : v.rational? = some q) : Denotes (.number v) (C q)
  | var (x : String) : Denotes (.var x) (X x)
  | fixed {e : Expr} {P : MvPolynomial String ℚ} (h : Denotes e P) : Denotes (.fixed e) P
  | plus {a b : Expr} {P Q : MvPolynomial String ℚ} (ha : Denotes a P) (hb : Denotes b Q) :
    Denotes (.plus a b) (P + Q)
  | minus {a b : Expr} {P Q : MvPolynomial String ℚ} (ha : Denotes a P) (hb : Denotes b Q) :
    Denotes (.minus a b) (P - Q)
  | times {a b : Expr} {P Q : MvPolynomial String ℚ} (ha : Denotes a P) (hb : Denotes b Q) :
    Denotes (.times a b) (P * Q)
  | neg {a : Expr} {P : MvPolynomial String ℚ} (ha : Denotes a P) : Denotes (.neg a) (-P)

variable {a b e : Expr} {P Q : MvPolynomial String ℚ}

theorem Denotes.int (n : Int) : (Expr.int n).Denotes (n : MvPolynomial String ℚ) := by
  have h := Denotes.number (Num.rational?_int n)
  rwa [map_intCast] at h

/-! ## Derivatives -/

/-- The derivative of the tree denotes the partial derivative of the polynomial. -/
theorem Denotes.derive (he : e.Denotes P) (v : String) :
    ∃ d, derive v e = .ok d ∧ d.Denotes (pderiv v P) := by
  induction he with
  | number h =>
    refine ⟨_, rfl, ?_⟩
    simpa using Denotes.int 0
  | var x =>
    refine ⟨_, rfl, ?_⟩
    by_cases hx : v = x
    · subst hx
      simpa using Denotes.int 1
    · simpa [hx, MvPolynomial.pderiv_X_of_ne (Ne.symm hx)] using Denotes.int 0
  | fixed _ ih => exact ih
  | plus _ _ iha ihb =>
    obtain ⟨da, hda, hPa⟩ := iha
    obtain ⟨db, hdb, hPb⟩ := ihb
    refine ⟨.plus da db, by simp [Expr.derive, both, hda, hdb], ?_⟩
    rw [map_add]
    exact hPa.plus hPb
  | minus _ _ iha ihb =>
    obtain ⟨da, hda, hPa⟩ := iha
    obtain ⟨db, hdb, hPb⟩ := ihb
    refine ⟨.minus da db, by simp [Expr.derive, both, hda, hdb], ?_⟩
    rw [map_sub]
    exact hPa.minus hPb
  | @times a b _ _ ha hb iha ihb =>
    obtain ⟨da, hda, hPa⟩ := iha
    obtain ⟨db, hdb, hPb⟩ := ihb
    refine ⟨productRule a b da db, by simp [Expr.derive, both, hda, hdb], ?_⟩
    rw [MvPolynomial.pderiv_mul, add_comm]
    exact (ha.times hPb).plus (hPa.times hb)
  | neg _ ih =>
    obtain ⟨da, hda, hPa⟩ := ih
    refine ⟨.neg da, by simp [Expr.derive, hda, Except.map], ?_⟩
    rw [map_neg]
    exact hPa.neg

/-- A polynomial does not vary with what is not free in the tree. -/
theorem Denotes.pderiv_of_not_mem (he : e.Denotes P) {v : String} (hv : v ∉ e.freeVars) : pderiv v P = 0 := by
  induction he with
  | number h => exact MvPolynomial.pderiv_C
  | var x =>
    have hx : x ≠ v := fun h => hv (by simp [freeVars, h])
    exact MvPolynomial.pderiv_X_of_ne hx
  | fixed _ ih => exact ih hv
  | plus _ _ iha ihb =>
    simp only [freeVars, List.mem_append, not_or] at hv
    rw [map_add, iha hv.1, ihb hv.2, add_zero]
  | minus _ _ iha ihb =>
    simp only [freeVars, List.mem_append, not_or] at hv
    rw [map_sub, iha hv.1, ihb hv.2, sub_zero]
  | times _ _ iha ihb =>
    simp only [freeVars, List.mem_append, not_or] at hv
    rw [MvPolynomial.pderiv_mul, iha hv.1, ihb hv.2, zero_mul, mul_zero, add_zero]
  | neg _ ih => rw [map_neg, ih hv, neg_zero]

/-! ## Simplification -/

theorem Denotes.eq_of_isValue (ha : a.Denotes P) {k : Int} (h : a.isValue k = true) :
    P = (k : MvPolynomial String ℚ) := by
  cases ha with
  | number hq =>
    rw [isValue, Num.isValue_iff, hq, Option.some_inj] at h
    rw [h, map_intCast]
  | _ => cases h

theorem Denotes.of_neg (h : (Expr.neg a).Denotes P) : a.Denotes (-P) := by
  cases h with
  | neg ha => rwa [neg_neg]

theorem Denotes.negate {n : Num} (h : (Expr.number n).Denotes P) : (Expr.number n.negate).Denotes (-P) := by
  cases h with
  | number hq =>
    have := Denotes.number (Num.rational?_negate hq)
    rwa [map_neg] at this

theorem Denotes.simplifySum (ha : a.Denotes P) (hb : b.Denotes Q) : (simplifySum a b).Denotes (P + Q) := by
  unfold Expr.simplifySum
  split
  · rename_i h
    rwa [ha.eq_of_isValue h, Int.cast_zero, zero_add]
  split
  · rename_i h
    rwa [hb.eq_of_isValue h, Int.cast_zero, add_zero]
  split
  · rw [← sub_neg_eq_add]
    exact ha.minus hb.of_neg
  · split
    · rw [← sub_neg_eq_add]
      exact ha.minus hb.negate
    · exact ha.plus hb
  · exact ha.plus hb

theorem Denotes.simplifyDifference (ha : a.Denotes P) (hb : b.Denotes Q) :
    (simplifyDifference a b).Denotes (P - Q) := by
  unfold Expr.simplifyDifference
  split
  · rename_i h
    rwa [hb.eq_of_isValue h, Int.cast_zero, sub_zero]
  split
  · rename_i h
    rw [ha.eq_of_isValue h, Int.cast_zero, zero_sub]
    exact hb.neg
  split
  · rw [sub_eq_add_neg]
    exact ha.plus hb.of_neg
  · split
    · rw [sub_eq_add_neg]
      exact ha.plus hb.negate
    · exact ha.minus hb
  · exact ha.minus hb

theorem Denotes.simplifyProduct (ha : a.Denotes P) (hb : b.Denotes Q) :
    (simplifyProduct a b).Denotes (P * Q) := by
  unfold Expr.simplifyProduct
  split
  · rename_i h
    have hzero : P * Q = ((0 : Int) : MvPolynomial String ℚ) := by
      obtain h | h := Bool.or_eq_true_iff.mp h
      · rw [ha.eq_of_isValue h, Int.cast_zero, zero_mul]
      · rw [hb.eq_of_isValue h, Int.cast_zero, mul_zero]
    rw [hzero]
    exact .int 0
  split
  · rename_i h
    rwa [ha.eq_of_isValue h, Int.cast_one, one_mul]
  split
  · rename_i h
    rwa [hb.eq_of_isValue h, Int.cast_one, mul_one]
  split
  · rw [← neg_mul_neg]
    exact ha.of_neg.times hb.of_neg
  · rw [← neg_neg (P * Q), ← neg_mul]
    exact (ha.of_neg.times hb).neg
  · rw [← neg_neg (P * Q), ← mul_neg]
    exact (ha.times hb.of_neg).neg
  · exact ha.times hb

theorem Denotes.simplifyNeg (ha : a.Denotes P) : (simplifyNeg a).Denotes (-P) := by
  unfold Expr.simplifyNeg
  split
  · exact ha.of_neg
  split
  · rename_i h
    have hzero : P = 0 := by rw [ha.eq_of_isValue h, Int.cast_zero]
    rwa [hzero, neg_zero, ← hzero]
  · exact ha.neg

/-- A pass of simplification keeps the polynomial. -/
theorem Denotes.simplify (he : e.Denotes P) : e.simplify.Denotes P := by
  induction he with
  | number h => exact .number h
  | var x => exact .var x
  | fixed _ ih => exact ih
  | plus _ _ iha ihb => exact iha.simplifySum ihb
  | minus _ _ iha ihb => exact iha.simplifyDifference ihb
  | times _ _ iha ihb => exact iha.simplifyProduct ihb
  | neg _ ih => exact ih.simplifyNeg

theorem Denotes.isPlain (he : e.Denotes P) : e.isPlain = true := by
  induction he <;> simp_all [Expr.isPlain]

/-- A pass brings in no names. -/
theorem Denotes.freeVars_simplify (he : e.Denotes P) : ∀ x ∈ e.simplify.freeVars, x ∈ e.freeVars :=
  ((plainOver_differential {x | x ∈ e.freeVars}).simplify e ⟨he.isPlain, fun _ hx => hx⟩).2

end Expr

/-! ## Evaluation -/

/-- The signed literals are the constant polynomials among the bindings to numbers. -/
theorem Expr.denotes_of_signedNumber? : ∀ {e : Expr} {x : ℚ}, e.signedNumber? = some x →
    e.Denotes (C x) ∧ e.freeVars = []
  | .number _, _, h => ⟨.number h, rfl⟩
  | .neg e, _, h => by
    obtain ⟨y, hy, rfl⟩ := Option.map_eq_some_iff.1 h
    obtain ⟨he, hfree⟩ := denotes_of_signedNumber? hy
    rw [map_neg]
    exact ⟨he.neg, hfree⟩

section Evaluation

variable [Exact.Functions] {bound : Tag → Env ℚ → Expr → Outcome ℚ} {env : Env ℚ} {a b e : Expr}
  {P : MvPolynomial String ℚ} {d : Domain}

theorem evaluateWith_number_of_rational? (hd : d ≠ .interval) {v : Num} {q : ℚ} (h : v.rational? = some q) :
    evaluateWith bound (.number v) (.domain d) env = .ok (.real q) := by
  rw [evaluateWith, literalUnder_eq h]
  cases d with
  | interval => exact absurd rfl hd
  | real | vector => rfl

/-- An operation on numbers, outside the domain of intervals. -/
theorem evaluateWith_binary_of_real (hd : d ≠ .interval) {op : BinOp} {x y z : ℚ}
    (ha : evaluateWith bound a (.domain d) env = .ok (.real x))
    (hb : evaluateWith bound b (.domain d) env = .ok (.real y)) (hz : Scalar.combine op x y = .ok z) :
    evaluateWith bound (.binary op a b) (.domain d) env = .ok (.real z) := by
  have htag : secondTag op (.domain d) = .domain d := by simp [secondTag, hd]
  have hcombine : (Value.real x).combine op (.real y) = .ok (.real z) := by
    rw [Value.combine, hz, Except.map]
  simp only [evaluateWith, htag, ha, hb]
  cases d with
  | interval => exact absurd rfl hd
  | real | vector => simp [combineUnder, Value.vectorOperands, hcombine, Outcome.ofArithmetic]

/-- Outside the domain of intervals the value of the tree is that of the polynomial, if the values of the free names
are numbers. -/
theorem Expr.Denotes.evaluateWith_eq (he : e.Denotes P) (hd : d ≠ .interval) {ρ : String → ℚ}
    (hvars : ∀ x ∈ e.freeVars, evaluateWith bound (.var x) (.domain d) env = .ok (.real (ρ x))) :
    evaluateWith bound e (.domain d) env = .ok (.real (MvPolynomial.eval ρ P)) := by
  induction he with
  | number h => rw [evaluateWith_number_of_rational? hd h, MvPolynomial.eval_C]
  | var x => simpa using hvars x (by simp [Expr.freeVars])
  | fixed _ ih => exact ih hvars
  | plus _ _ iha ihb =>
    rw [Expr.freeVars, List.forall_mem_append] at hvars
    exact evaluateWith_binary_of_real hd (iha hvars.1) (ihb hvars.2) (by rw [map_add]; rfl)
  | minus _ _ iha ihb =>
    rw [Expr.freeVars, List.forall_mem_append] at hvars
    exact evaluateWith_binary_of_real hd (iha hvars.1) (ihb hvars.2) (by rw [map_sub]; rfl)
  | times _ _ iha ihb =>
    rw [Expr.freeVars, List.forall_mem_append] at hvars
    exact evaluateWith_binary_of_real hd (iha hvars.1) (ihb hvars.2) (by rw [map_mul]; rfl)
  | neg _ ih =>
    simp only [evaluateWith, ih hvars, Value.negate, Outcome.ofArithmetic, map_neg]

/-- A variable that is bound to a number has this value. -/
theorem evaluateUpTo_var_of_number? (hd : d ≠ .interval) {depth : Nat} {name : String} {b : Binding ℚ} {x : ℚ}
    (hb : env.vars name = some b) (hx : b.number? = some x) :
    evaluateUpTo (depth + 2) (.domain d) env (.var name) = .ok (.real x) := by
  cases b with
  | number y =>
    cases hx
    simp only [evaluateUpTo, evaluateWith, hb]
    cases d with
    | interval => exact absurd rfl hd
    | real | vector => rfl
  | tree e =>
    obtain ⟨he, hfree⟩ := Expr.denotes_of_signedNumber? hx
    simp only [evaluateUpTo, evaluateWith, hb]
    rw [he.evaluateWith_eq hd (ρ := fun _ => 0) (by simp [hfree]), MvPolynomial.eval_C]

/-- The numbers that variables are bound to. -/
def Env.numbers (env : Env ℚ) : String → Option ℚ := fun x => (env.vars x).bind Binding.number?

/-- The point whose coordinates are the numbers that variables are bound to. -/
def Env.point (env : Env ℚ) : String → ℚ := fun x => (env.numbers x).getD 0

/-- Where the free names are bound to numbers, the value of the tree is that of the polynomial. -/
theorem Expr.Denotes.evaluate (he : e.Denotes P) (hd : d ≠ .interval)
    (hnumbers : ∀ x ∈ e.freeVars, (env.numbers x).isSome) (depth : Nat) :
    evaluateUpTo (depth + 2) (.domain d) env e = .ok (.real (MvPolynomial.eval env.point P)) := by
  refine he.evaluateWith_eq hd fun x hx => ?_
  obtain ⟨q, hq⟩ := Option.isSome_iff_exists.1 (hnumbers x hx)
  obtain ⟨b, hb, hbq⟩ := Option.bind_eq_some_iff.1 hq
  have hpoint : env.point x = q := by simp [Env.point, hq]
  rw [hpoint]
  exact evaluateUpTo_var_of_number? hd hb hbq

/-- Where the tree has a value, its free names are bound. -/
theorem Expr.Denotes.bound_of_evaluate (he : e.Denotes P) {tag : Tag} {v : Value ℚ}
    (h : evaluateWith bound e tag env = .ok v) : ∀ x ∈ e.freeVars, env.vars x ≠ none := by
  induction he generalizing tag v with
  | number _ => simp [Expr.freeVars]
  | var x =>
    intro y hy hnone
    obtain rfl : y = x := by simpa [Expr.freeVars] using hy
    simp [evaluateWith, hnone] at h
  | fixed _ ih => exact ih h
  | plus _ _ iha ihb | minus _ _ iha ihb | times _ _ iha ihb =>
    simp only [evaluateWith] at h
    split at h
    · cases h
    rename_i va hva
    split at h
    · cases h
    rename_i vb hvb
    rw [Expr.freeVars, List.forall_mem_append]
    exact ⟨iha hva, ihb hvb⟩
  | neg _ ih =>
    cases tag with
    | other s => simp [evaluateWith] at h
    | domain d =>
      simp only [evaluateWith] at h
      split at h
      · cases h
      rename_i va hva
      exact ih hva

end Evaluation

/-! ## Compositions -/

/-- A composition whose outer function takes one number evaluates that function, with its parameter bound to the
number the inner function gives. -/
theorem evaluateWith_compose {α : Type} [Scalar α] {bound : Tag → Env α → Expr → Outcome α} {env : Env α} {f g : Expr}
    (hg : g.args.length = 1) {x : α} (hf : evaluateWith bound f (.domain .real) env = .ok (.real x)) (tag : Tag) :
    evaluateWith bound (.compose f g) tag env = evaluateWith bound g tag (env.bindArguments g.args [x]) := by
  have hinner : evaluateWith bound f (innerTag 1) env = .ok (.real x) := hf
  rw [evaluateWith, hg]
  simp [hinner, handedOver, Value.number]

end ExprCalculus
