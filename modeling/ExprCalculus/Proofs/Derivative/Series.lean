import ExprCalculus.Proofs.Derivative.Interpretation
import ExprCalculus.Proofs.Number.Exact

/-!
# Quotients of power series

The quotients of formal power series over the rational numbers are a differential field, and the well-known
series make it a `Calculus`: exponential, sine and cosine are taken of a series without its constant term, the
logarithm of a series that begins with one, and an inverse function is an antiderivative.

* `derivation` — the derivative of a series, extended to the quotients.
* `exists_rational` — the constants are the rational numbers.
* `calculus` — the laws hold.
-/

namespace ExprCalculus.Series

open PowerSeries

/-- Quotients of power series. -/
def Fraction : Type := FractionRing ℚ⟦X⟧

noncomputable instance : Field Fraction := inferInstanceAs (Field (FractionRing ℚ⟦X⟧))

noncomputable instance : Algebra ℚ⟦X⟧ Fraction := inferInstanceAs (Algebra ℚ⟦X⟧ (FractionRing ℚ⟦X⟧))

instance : IsFractionRing ℚ⟦X⟧ Fraction := inferInstanceAs (IsFractionRing ℚ⟦X⟧ (FractionRing ℚ⟦X⟧))

/-- A power series as a quotient. -/
noncomputable def ofSeries : ℚ⟦X⟧ →+* Fraction := algebraMap ℚ⟦X⟧ Fraction

theorem ofSeries_injective : Function.Injective ofSeries := IsFractionRing.injective ℚ⟦X⟧ Fraction

/-! ## The derivative -/

/-- A power series with its derivative. -/
noncomputable def tangent : ℚ⟦X⟧ →+* TrivSqZeroExt Fraction Fraction where
  toFun f := .inl (ofSeries f) + .inr (ofSeries (d⁄dX ℚ f))
  map_one' := by ext <;> simp
  map_zero' := by ext <;> simp
  map_add' f g := by ext <;> simp
  map_mul' f g := by
    ext <;> simp
    ring

theorem isUnit_tangent (f : nonZeroDivisors ℚ⟦X⟧) : IsUnit (tangent f) := by
  have hf : ofSeries f ≠ 0 := (map_ne_zero_iff _ ofSeries_injective).mpr (nonZeroDivisors.coe_ne_zero f)
  rw [TrivSqZeroExt.isUnit_iff_isUnit_fst]
  simpa [tangent] using hf

/-- A quotient with its derivative. -/
noncomputable def tangentLine : Fraction →+* TrivSqZeroExt Fraction Fraction :=
  IsLocalization.lift isUnit_tangent

@[simp] theorem tangentLine_ofSeries (f : ℚ⟦X⟧) : tangentLine (ofSeries f) = tangent f :=
  IsLocalization.lift_eq isUnit_tangent f

@[simp] theorem fst_tangentLine (u : Fraction) : (tangentLine u).fst = u := by
  have h : (TrivSqZeroExt.fstHom ℤ Fraction Fraction).toRingHom.comp tangentLine = RingHom.id Fraction := by
    refine IsLocalization.ringHom_ext (nonZeroDivisors ℚ⟦X⟧) (RingHom.ext fun f => ?_)
    change (tangentLine (ofSeries f)).fst = ofSeries f
    simp [tangent]
  exact congrArg (fun h : Fraction →+* Fraction => h u) h

/-- The derivative of a quotient. -/
noncomputable def derivation : Derivation ℤ Fraction Fraction :=
  Derivation.mk'
    { toFun u := (tangentLine u).snd
      map_add' u w := by simp
      map_smul' n u := by simp }
    (fun u w => by simp [mul_comm])

@[simp] theorem derivation_ofSeries (f : ℚ⟦X⟧) : derivation (ofSeries f) = ofSeries (d⁄dX ℚ f) := by
  change (tangentLine (ofSeries f)).snd = _
  simp [tangent]

/-! ## Functions of a series -/

/-- A series with zero for its constant term. -/
noncomputable def centred (f : ℚ⟦X⟧) : ℚ⟦X⟧ := f - C (constantCoeff f)

theorem constantCoeff_centred (f : ℚ⟦X⟧) : constantCoeff (centred f) = 0 := by simp [centred]

theorem hasSubst_centred (f : ℚ⟦X⟧) : HasSubst (centred f) :=
  HasSubst.of_constantCoeff_zero' (constantCoeff_centred f)

/-- The chain rule. -/
theorem derivative_subst_centred (s f : ℚ⟦X⟧) :
    d⁄dX ℚ (s.subst (centred f)) = (d⁄dX ℚ s).subst (centred f) * d⁄dX ℚ f := by
  rw [derivative_subst (hasSubst_centred f)]
  simp [centred]

theorem derivative_sin : d⁄dX ℚ (sin ℚ) = cos ℚ := by
  ext n
  rw [coeff_derivative, sin, cos, coeff_mk, coeff_mk]
  by_cases h : Even n
  · obtain ⟨k, rfl⟩ := h
    have hdiv : (k + k + 1) / 2 = (k + k) / 2 := by omega
    have : ((k + k).factorial : ℚ) ≠ 0 := by positivity
    have : (k + k + 1 : ℚ) ≠ 0 := by positivity
    simp [Nat.even_add_one, hdiv, Nat.factorial_succ]
    field_simp
  · simp [Nat.even_add_one, h]

theorem derivative_cos : d⁄dX ℚ (cos ℚ) = -sin ℚ := by
  ext n
  rw [coeff_derivative, map_neg, sin, cos, coeff_mk, coeff_mk]
  by_cases h : Even n
  · simp [Nat.even_add_one, h]
  · rw [Nat.not_even_iff_odd] at h
    obtain ⟨k, rfl⟩ := h
    have h1 : (2 * k + 1 + 1) / 2 = k + 1 := by omega
    have h2 : (2 * k + 1) / 2 = k := by omega
    have : ((2 * k + 1).factorial : ℚ) ≠ 0 := by positivity
    have : (2 * k + 1 + 1 : ℚ) ≠ 0 := by positivity
    simp [Nat.even_add_one, h1, h2, Nat.factorial_succ (2 * k + 1), pow_succ]
    field_simp

theorem derivative_log_mul : d⁄dX ℚ (log ℚ) * (1 + X) = 1 := by
  rw [deriv_log, mul_add, mul_one]
  ext n
  cases n with
  | zero => simp
  | succ n => simp [coeff_succ_mul_X, pow_succ, coeff_one]

theorem derivative_logOf {f : ℚ⟦X⟧} (hf : constantCoeff f = 1) : d⁄dX ℚ (logOf f) * f = d⁄dX ℚ f := by
  have hsub : HasSubst (f - 1) := HasSubst.of_constantCoeff_zero' (by simp [hf])
  have h : (d⁄dX ℚ (log ℚ)).subst (f - 1) * f = 1 := by
    have h := congrArg (substAlgHom hsub) derivative_log_mul
    rw [map_mul, map_add, map_one, substAlgHom_X hsub, add_sub_cancel] at h
    rwa [coe_substAlgHom] at h
  rw [logOf_eq, derivative_subst hsub]
  simp only [map_sub, Derivation.map_one_eq_zero, sub_zero]
  linear_combination d⁄dX ℚ f * h

/-- The exponential of a series. -/
noncomputable def expOf (f : ℚ⟦X⟧) : ℚ⟦X⟧ := (PowerSeries.exp ℚ).subst (centred f)

/-- The sine of a series. -/
noncomputable def sinOf (f : ℚ⟦X⟧) : ℚ⟦X⟧ := (PowerSeries.sin ℚ).subst (centred f)

/-- The cosine of a series. -/
noncomputable def cosOf (f : ℚ⟦X⟧) : ℚ⟦X⟧ := (PowerSeries.cos ℚ).subst (centred f)

theorem derivative_expOf (f : ℚ⟦X⟧) : d⁄dX ℚ (expOf f) = expOf f * d⁄dX ℚ f := by
  rw [expOf, derivative_subst_centred, derivative_exp]

theorem derivative_sinOf (f : ℚ⟦X⟧) : d⁄dX ℚ (sinOf f) = cosOf f * d⁄dX ℚ f := by
  rw [sinOf, derivative_subst_centred, derivative_sin, cosOf]

theorem derivative_cosOf (f : ℚ⟦X⟧) : d⁄dX ℚ (cosOf f) = -sinOf f * d⁄dX ℚ f := by
  rw [cosOf, derivative_subst_centred, derivative_cos, sinOf, ← coe_substAlgHom (hasSubst_centred f),
    map_neg]

theorem constantCoeff_expOf (f : ℚ⟦X⟧) : constantCoeff (expOf f) = 1 := by
  have h : constantCoeff ((PowerSeries.exp ℚ - 1).subst (centred f)) = 0 :=
    constantCoeff_subst_eq_zero (constantCoeff_centred f) _ (by simp)
  rw [subst_sub (hasSubst_centred f), map_sub, ← coe_substAlgHom (hasSubst_centred f), map_one,
    coe_substAlgHom, map_one] at h
  exact sub_eq_zero.mp h

/-- A solution of `y' = y * s` is known by its constant term. -/
theorem eq_of_derivative_eq_mul {y z s : ℚ⟦X⟧} (hy : d⁄dX ℚ y = y * s) (hz : d⁄dX ℚ z = z * s)
    (hy1 : constantCoeff y = 1) (hz1 : constantCoeff z = 1) : y = z := by
  have hinv : z * z⁻¹ = 1 := PowerSeries.mul_inv_cancel z (by simp [hz1])
  have h : y * z⁻¹ = 1 := by
    refine derivative.ext ?_ (by simp [hy1, hz1])
    rw [Derivation.leibniz, derivative_inv', hy, hz, Derivation.map_one_eq_zero]
    simp only [smul_eq_mul]
    linear_combination -(y * s * z⁻¹) * hinv
  linear_combination z * h - y * hinv

/-- A power of a series with an exponent less by one. -/
theorem expOf_pred_mul {f : ℚ⟦X⟧} (hf : constantCoeff f = 1) (q : ℚ) :
    expOf ((C q - 1) * logOf f) * f = expOf (C q * logOf f) := by
  have hlog := derivative_logOf hf
  refine eq_of_derivative_eq_mul (s := C q * d⁄dX ℚ (logOf f)) ?_ ?_ ?_ ?_
  · simp only [Derivation.leibniz, derivative_expOf, map_sub, derivative_C, Derivation.map_one_eq_zero,
      smul_eq_mul]
    linear_combination - expOf ((C q - 1) * logOf f) * hlog
  · simp only [Derivation.leibniz, derivative_expOf, derivative_C, smul_eq_mul]
    ring
  · simp [constantCoeff_expOf, hf]
  · exact constantCoeff_expOf _

/-! ## Constants and antiderivatives -/

instance : CharZero Fraction := charZero_of_injective_ringHom (ofSeries.comp C).injective

/-- A quotient or its inverse is a series. -/
theorem isSeries_or_inv (u : Fraction) : (∃ f, ofSeries f = u) ∨ ∃ f, ofSeries f = u⁻¹ :=
  ValuationRing.isInteger_or_isInteger ℚ⟦X⟧ u

theorem eq_C_of_derivative {f : ℚ⟦X⟧} (hf : d⁄dX ℚ f = 0) : f = C (constantCoeff f) :=
  derivative.ext (by simp [hf]) (by simp)

/-- The constants are the rational numbers. -/
theorem exists_rational {c : Fraction} (hc : derivation c = 0) : ∃ q, c = ofSeries (C q) := by
  obtain ⟨f, rfl⟩ | ⟨f, hf⟩ := isSeries_or_inv c
  · rw [derivation_ofSeries, map_eq_zero_iff _ ofSeries_injective] at hc
    exact ⟨_, congrArg ofSeries (eq_C_of_derivative hc)⟩
  · have h : derivation (ofSeries f) = 0 := by rw [hf, Derivation.leibniz_inv, hc, smul_zero]
    rw [derivation_ofSeries, map_eq_zero_iff _ ofSeries_injective] at h
    refine ⟨(constantCoeff f)⁻¹, ?_⟩
    rw [← inv_inv c, ← hf]
    nth_rewrite 1 [eq_C_of_derivative h]
    exact (map_inv₀ (ofSeries.comp C) (constantCoeff f)).symm

/-- A series has an antiderivative. -/
theorem exists_derivation_eq (f : ℚ⟦X⟧) : ∃ w, derivation w = ofSeries f := by
  refine ⟨ofSeries (mk fun n => coeff (n - 1) f / n), ?_⟩
  rw [derivation_ofSeries]
  congr 1
  ext n
  have : (n + 1 : ℚ) ≠ 0 := by positivity
  simp [coeff_derivative, this]

/-- A quotient by a series with a constant term is a series. -/
theorem ofSeries_div {g : ℚ⟦X⟧} (hg : constantCoeff g ≠ 0) (f : ℚ⟦X⟧) :
    ofSeries f / ofSeries g = ofSeries (f * g⁻¹) := by
  have hinv := congrArg ofSeries (PowerSeries.mul_inv_cancel g hg)
  have hg0 : ofSeries g ≠ 0 := by
    rintro h
    simp [h] at hinv
  rw [div_eq_iff hg0, ← map_mul, mul_assoc, mul_comm g⁻¹, PowerSeries.mul_inv_cancel g hg, mul_one]

/-! ## Functions of a quotient -/

/-- A function of series on the quotients, zero where there is no series. -/
noncomputable def onSeries (F : ℚ⟦X⟧ → ℚ⟦X⟧) : Fraction → Fraction :=
  Function.extend ofSeries (ofSeries ∘ F) 0

@[simp] theorem onSeries_ofSeries (F : ℚ⟦X⟧ → ℚ⟦X⟧) (f : ℚ⟦X⟧) : onSeries F (ofSeries f) = ofSeries (F f) :=
  ofSeries_injective.extend_apply _ _ f

theorem derivation_onSeries {F G : ℚ⟦X⟧ → ℚ⟦X⟧} (h : ∀ f, d⁄dX ℚ (F f) = G f * d⁄dX ℚ f) (u : Fraction) :
    derivation (onSeries F u) = onSeries G u * derivation u := by
  by_cases hu : ∃ f, ofSeries f = u
  · obtain ⟨f, rfl⟩ := hu
    simp [h]
  · simp [onSeries, Function.extend_apply' _ _ _ hu]

theorem onSeries_neg (F : ℚ⟦X⟧ → ℚ⟦X⟧) (u : Fraction) : onSeries (fun f => -F f) u = -onSeries F u := by
  by_cases hu : ∃ f, ofSeries f = u
  · obtain ⟨f, rfl⟩ := hu
    simp
  · simp [onSeries, Function.extend_apply' _ _ _ hu]

/-- A series that begins with one. -/
def BeginsWithOne (u : Fraction) : Prop := ∃ f, constantCoeff f = 1 ∧ ofSeries f = u

theorem BeginsWithOne.ne_zero {u : Fraction} (hu : BeginsWithOne u) : u ≠ 0 := by
  obtain ⟨f, hf, rfl⟩ := hu
  rw [Ne, map_eq_zero_iff _ ofSeries_injective]
  rintro rfl
  simp at hf

/-- The exponential. -/
noncomputable def exp : Fraction → Fraction := onSeries expOf

/-- The logarithm. -/
noncomputable def ln : Fraction → Fraction := onSeries logOf

open Classical in
/-- A power, zero where neither the base begins with one nor the exponent is an integer. -/
noncomputable def pow (u w : Fraction) : Fraction :=
  if BeginsWithOne u then exp (w * ln u) else Function.extend Int.cast (fun n : ℤ => u ^ n) 0 w

theorem derivation_exp (u : Fraction) : derivation (exp u) = exp u * derivation u :=
  derivation_onSeries derivative_expOf u

theorem derivation_ln {u : Fraction} (hu : BeginsWithOne u) : derivation (ln u) = derivation u / u := by
  have hu0 := hu.ne_zero
  obtain ⟨f, hf, rfl⟩ := hu
  rw [ln, onSeries_ofSeries, eq_div_iff hu0, derivation_ofSeries, derivation_ofSeries, ← map_mul,
    derivative_logOf hf]

theorem pow_of_beginsWithOne {u : Fraction} (hu : BeginsWithOne u) (w : Fraction) :
    pow u w = exp (w * ln u) :=
  if_pos hu

theorem pow_intCast {u : Fraction} (hu : ¬BeginsWithOne u) (n : ℤ) : pow u n = u ^ n := by
  rw [pow, if_neg hu]
  exact Int.cast_injective.extend_apply _ _ n

theorem pow_two {u : Fraction} (hu : ¬BeginsWithOne u) : pow u 2 = u ^ 2 := by
  have h := pow_intCast hu 2
  rw [zpow_ofNat] at h
  exact_mod_cast h

theorem pow_half {u : Fraction} (hu : ¬BeginsWithOne u) : pow u (1 / 2) = 0 := by
  rw [pow, if_neg hu]
  refine Function.extend_apply' _ _ _ ?_
  rintro ⟨n, hn⟩
  have h : ((2 * n : ℤ) : Fraction) = (1 : ℤ) := by
    push_cast
    rw [hn]
    norm_num
  have := Int.cast_injective h
  omega

/-- A power of a series that begins with one is such a series. -/
theorem pow_ofSeries {f : ℚ⟦X⟧} (hf : constantCoeff f = 1) (q : ℚ) :
    pow (ofSeries f) (ofSeries (C q)) = ofSeries (expOf (C q * logOf f)) := by
  rw [pow_of_beginsWithOne ⟨f, hf, rfl⟩, ln, onSeries_ofSeries, ← map_mul, exp, onSeries_ofSeries]

/-- The admissible bases for an exponent: a series that begins with one goes with every exponent, another
quotient with an integer, and zero only with one that is not negative. -/
def PowBase (u c : Fraction) : Prop := BeginsWithOne u ∨ ∃ n : ℤ, (n : Fraction) = c ∧ (0 ≤ n ∨ u ≠ 0)

theorem derivation_pow {u c : Fraction} (hc : derivation c = 0) (hu : PowBase u c) :
    derivation (pow u c) = c * pow u (c - 1) * derivation u := by
  by_cases h : BeginsWithOne u
  · obtain ⟨f, hf, rfl⟩ := h
    obtain ⟨q, rfl⟩ := exists_rational hc
    have hpred : ofSeries (C q) - 1 = ofSeries (C (q - 1)) := by simp
    rw [hpred, pow_ofSeries hf, pow_ofSeries hf, derivation_ofSeries, derivation_ofSeries, ← map_mul,
      ← map_mul]
    congr 1
    have h1 := expOf_pred_mul hf q
    have h2 := derivative_logOf hf
    rw [derivative_expOf, ← h1, Derivation.leibniz, derivative_C, map_sub, map_one]
    simp only [smul_eq_mul]
    linear_combination C q * expOf ((C q - 1) * logOf f) * h2
  · obtain ⟨n, rfl, hn⟩ := hu.resolve_left h
    have hpred : (n : Fraction) - 1 = ((n - 1 : ℤ) : Fraction) := by rw [Int.cast_sub, Int.cast_one]
    rw [hpred, pow_intCast h, pow_intCast h, Derivation.leibniz_zpow]
    simp [mul_assoc]

/-! ## Inverse trigonometric functions -/

/-- The square of a series is a series that does not begin with a negative number. -/
theorem exists_square (f : ℚ⟦X⟧) : ∃ g, pow (ofSeries f) 2 = ofSeries g ∧ 0 ≤ constantCoeff g := by
  by_cases h : BeginsWithOne (ofSeries f)
  · obtain ⟨g, hg, he⟩ := h
    obtain rfl := ofSeries_injective he
    refine ⟨expOf (C 2 * logOf g), ?_, ?_⟩
    · rw [← pow_ofSeries hg, map_ofNat, map_ofNat]
    · rw [constantCoeff_expOf]
      exact zero_le_one
  · exact ⟨f ^ 2, by rw [pow_two h, map_pow], by simpa using sq_nonneg (constantCoeff f)⟩

/-- An antiderivative, where there is one. -/
noncomputable def antiderivative : Fraction → Fraction := Function.invFun derivation

theorem derivation_antiderivative {w : Fraction} (hw : ∃ u, derivation u = w) :
    derivation (antiderivative w) = w :=
  Function.invFun_eq hw

theorem exists_arctan (u : Fraction) : ∃ w, derivation w = derivation u / (1 + pow u 2) := by
  by_cases hu : ∃ f, ofSeries f = u
  · obtain ⟨f, rfl⟩ := hu
    obtain ⟨g, hg, hpos⟩ := exists_square f
    have hone : constantCoeff (1 + g) ≠ 0 := by
      simp only [map_add, map_one]
      positivity
    rw [hg, ← map_one ofSeries, ← map_add, derivation_ofSeries, ofSeries_div hone]
    exact exists_derivation_eq _
  · -- the inverse is a series and its angle is the opposite one
    obtain ⟨f, hf⟩ := (isSeries_or_inv u).resolve_left hu
    have hu0 : u ≠ 0 := by
      rintro rfl
      exact hu ⟨0, map_zero _⟩
    have hone : constantCoeff (1 + f ^ 2) ≠ 0 := by
      simp only [map_add, map_one, map_pow]
      positivity
    have hsquare : pow u 2 = u ^ 2 := pow_two fun ⟨g, _, hg⟩ => hu ⟨g, hg⟩
    have hderiv : derivation u / (1 + u ^ 2) = ofSeries (-d⁄dX ℚ f * (1 + f ^ 2)⁻¹) := by
      have hfactor : 1 + u⁻¹ ^ 2 = u⁻¹ ^ 2 * (1 + u ^ 2) := by
        field_simp
        ring
      rw [← ofSeries_div hone, map_neg, ← derivation_ofSeries, hf, Derivation.leibniz_inv, map_add, map_one,
        map_pow, hf, hfactor, smul_eq_mul, neg_mul, neg_neg, mul_div_mul_left _ _ (by positivity)]
    rw [hsquare, hderiv]
    exact exists_derivation_eq _

theorem exists_arcsin (u : Fraction) : ∃ w, derivation w = derivation u / pow (1 - pow u 2) (1 / 2) := by
  by_cases h : BeginsWithOne (1 - pow u 2)
  · obtain ⟨f, hf, he⟩ := h
    have hseries : ∃ g, ofSeries g = u := by
      by_contra hu
      obtain ⟨g, hg⟩ := (isSeries_or_inv u).resolve_left hu
      have hsquare : pow u 2 = u ^ 2 := pow_two fun ⟨g, _, hg⟩ => hu ⟨g, hg⟩
      refine hu ⟨(1 - f) * g, ?_⟩
      have hu0 : u ≠ 0 := by
        rintro rfl
        exact hu ⟨0, map_zero _⟩
      rw [map_mul, map_sub, map_one, he, hg, hsquare]
      field_simp
      ring
    obtain ⟨g, rfl⟩ := hseries
    have hhalf : (1 / 2 : Fraction) = ofSeries (C (1 / 2)) := by
      rw [← RingHom.comp_apply, map_div₀, map_one, map_ofNat]
    rw [← he, hhalf, pow_ofSeries hf, derivation_ofSeries, ofSeries_div (by simp [constantCoeff_expOf])]
    exact exists_derivation_eq _
  · exact ⟨0, by rw [pow_half h, div_zero, map_zero]⟩

/-- The inverse sine.  It is zero where the square root is not known. -/
noncomputable def arcsin (u : Fraction) : Fraction :=
  antiderivative (derivation u / pow (1 - pow u (2 : ℕ)) (1 / (2 : ℕ)))

/-- The inverse tangent. -/
noncomputable def arctan (u : Fraction) : Fraction := antiderivative (derivation u / (1 + pow u (2 : ℕ)))

theorem derivation_arcsin (u : Fraction) :
    derivation (arcsin u) = derivation u / pow (1 - pow u 2) (1 / 2) := by
  rw [arcsin, Nat.cast_ofNat]
  exact derivation_antiderivative (exists_arcsin u)

theorem derivation_arccos (u : Fraction) :
    derivation (-arcsin u) = -derivation u / pow (1 - pow u 2) (1 / 2) := by
  rw [map_neg, derivation_arcsin, neg_div]

theorem derivation_arctan (u : Fraction) : derivation (arctan u) = derivation u / (1 + pow u 2) := by
  rw [arctan, Nat.cast_ofNat]
  exact derivation_antiderivative (exists_arctan u)

theorem derivation_constant (q : ℚ) : derivation (ofSeries (C q)) = 0 := by
  rw [derivation_ofSeries, derivative_C, map_zero]

theorem derivation_cos (u : Fraction) :
    derivation (onSeries cosOf u) = -onSeries sinOf u * derivation u := by
  rw [derivation_onSeries derivative_cosOf, onSeries_neg]

/-- The calculus of the quotients of power series.  The step functions are zero. -/
noncomputable def calculus : Calculus Fraction where
  D := derivation
  real x := ofSeries (C (((Num.float x).rational?).getD 0))
  exp := exp
  ln := ln
  pow := pow
  sin := onSeries sinOf
  cos := onSeries cosOf
  arcsin := arcsin
  arccos u := -arcsin u
  arctan := arctan
  ceil _ := 0
  floor _ := 0
  sgn _ := 0
  LnArg := BeginsWithOne
  PowBase := PowBase
  D_real _ := derivation_constant _
  D_exp := derivation_exp
  D_ln _ hu := derivation_ln hu
  D_sin := derivation_onSeries derivative_sinOf
  D_cos := derivation_cos
  D_arcsin := derivation_arcsin
  D_arccos := derivation_arccos
  D_arctan := derivation_arctan
  D_pow _ _ hc hu _ := derivation_pow hc hu
  pow_eq_exp _ w hu := pow_of_beginsWithOne hu w
  D_ceil _ := map_zero _
  D_floor _ := map_zero _
  D_sgn _ := map_zero _

/-- A variable as the series `X` and the others as zero. -/
noncomputable def along (x : String) : String → Fraction := Function.update 0 x (ofSeries X)

theorem powBase_natCast (u : Fraction) (n : ℕ) : PowBase u n :=
  .inr ⟨n, Int.cast_natCast n, .inl n.cast_nonneg⟩

end ExprCalculus.Series
