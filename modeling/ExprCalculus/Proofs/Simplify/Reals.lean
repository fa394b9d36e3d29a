import ExprCalculus.Proofs.Simplify.Semantics

/-!
# The real numbers

The real functions, each on its domain, are a `PartialCalculus`.
-/

namespace ExprCalculus.Reals

open Classical in
/-- A value on a domain. -/
noncomputable def only (p : Prop) (x : ℝ) : Option ℝ := if p then some x else none

theorem only_eq_some {p : Prop} {x y : ℝ} : only p x = some y ↔ p ∧ x = y := by
  unfold only
  split <;> simp [*]

/-- The bases a real exponent goes with: positive ones, zero if the exponent is not negative, and negative
ones if it is an integer. -/
def PowBase (x y : ℝ) : Prop := 0 < x ∨ (x = 0 ∧ 0 ≤ y) ∨ ∃ n : ℤ, y = n ∧ x ≠ 0

theorem powBase_natCast (x : ℝ) (n : ℕ) : PowBase x n := by
  by_cases hx : x = 0
  · exact .inr (.inl ⟨hx, n.cast_nonneg⟩)
  · exact .inr (.inr ⟨n, by simp, hx⟩)

theorem sqrt_square {x w : ℝ} (hx : 0 ≤ x) (hw : only (PowBase x 2) (x ^ (2 : ℝ)) = some w) :
    only (0 ≤ w) (√w) = some x := by
  obtain ⟨-, rfl⟩ := only_eq_some.mp hw
  rw [Real.rpow_two]
  exact only_eq_some.mpr ⟨sq_nonneg x, Real.sqrt_sq hx⟩

/-- The real functions. -/
noncomputable def calculus : PartialCalculus ℝ where
  e := Real.exp 1
  exp x := some (Real.exp x)
  ln x := only (0 < x) (Real.log x)
  pow x y := only (PowBase x y) (x ^ y)
  sqrt x := only (0 ≤ x) (√x)
  sin x := some (Real.sin x)
  cos x := some (Real.cos x)
  tan x := only (Real.cos x ≠ 0) (Real.tan x)
  arcsin x := only (-1 ≤ x ∧ x ≤ 1) (Real.arcsin x)
  arccos x := only (-1 ≤ x ∧ x ≤ 1) (Real.arccos x)
  arctan x := some (Real.arctan x)
  abs x := some |x|
  ceil x := some ⌈x⌉
  floor x := some ⌊x⌋
  sgn x := some (SignType.sign x)
  log b x := only (0 < x ∧ 0 < b ∧ b ≠ 1) (Real.log x / Real.log b)
  root n x := only (0 ≤ x ∧ n ≠ 0) (x ^ (1 / n : ℝ))
  exp_zero := by simp
  exp_one := rfl
  ln_one := by simp [only_eq_some]
  ln_pos h := (only_eq_some.mp h).1
  exp_mul_ln := by
    intro x w y z hx hw hz
    obtain ⟨-, rfl⟩ := only_eq_some.mp hw
    rw [Option.some_inj] at hz
    refine only_eq_some.mpr ⟨.inl hx, ?_⟩
    rw [Real.rpow_def_of_pos hx, mul_comm, hz]
  pow_zero x := only_eq_some.mpr ⟨by exact_mod_cast powBase_natCast x 0, Real.rpow_zero x⟩
  pow_one x := only_eq_some.mpr ⟨by exact_mod_cast powBase_natCast x 1, Real.rpow_one x⟩
  one_pow y := only_eq_some.mpr ⟨.inl one_pos, Real.one_rpow y⟩
  sqrt_zero := by simp [only_eq_some]
  sqrt_one := by simp [only_eq_some]
  sqrt_square := sqrt_square
  sin_zero := by simp
  cos_zero := by simp
  tan_zero := by simp [only_eq_some]
  ceil_integer := by
    intro x w h
    exact ⟨⌈x⌉, (Option.some_inj.mp h).symm⟩
  ceil_intCast n := by simp
  floor_integer := by
    intro x w h
    exact ⟨⌊x⌋, (Option.some_inj.mp h).symm⟩
  floor_intCast n := by simp

end ExprCalculus.Reals
