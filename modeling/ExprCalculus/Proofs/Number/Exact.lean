import ExprCalculus.Proofs.Number.Binary64

/-!
# Literals as rational numbers

The exact value of a literal is a rational number, and the tests and the negation that rewriting needs are
exact for it.

* `Num.isValue_iff` — a literal is taken for an integer if it is that integer.
* `Num.rational?_negate` — the value of the literal with the other sign.
-/

namespace ExprCalculus

namespace Dyadic

/-- The number as a rational one. -/
def value (d : Dyadic) : ℚ := d.signed * 2 ^ d.exponent

/-- A number as a multiple of a power of two that is not above its own. -/
theorem scaled_mul (d : Dyadic) {e : Int} (he : e ≤ d.exponent) : (d.scaled e : ℚ) * 2 ^ e = d.value := by
  have hpow : (2 : ℚ) ^ d.exponent = twoPow (d.exponent - e).toNat * 2 ^ e := by
    rw [twoPow, Nat.pow_eq, Nat.cast_pow, Nat.cast_two, ← zpow_natCast, ← zpow_add₀ two_ne_zero]
    congr 1
    omega
  rw [value, hpow, scaled]
  push_cast
  ring

theorem sameValue_iff (a b : Dyadic) : a.sameValue b = true ↔ a.value = b.value := by
  have ha := a.scaled_mul (min_le_left a.exponent b.exponent)
  have hb := b.scaled_mul (min_le_right a.exponent b.exponent)
  have hpow : (2 : ℚ) ^ min a.exponent b.exponent ≠ 0 := zpow_ne_zero _ two_ne_zero
  simp only [sameValue, beq_iff_eq]
  rw [← ha, ← hb, mul_left_inj' hpow, Int.cast_inj]

theorem value_ofInt (n : Int) : (ofInt n).value = n := by
  have h : (ofInt n).signed = n := by
    simp only [signed, ofInt, decide_eq_true_eq]
    split <;> omega
  rw [value, h]
  simp [ofInt]

theorem value_opposite (d : Dyadic) : d.opposite.value = -d.value := by
  have h : d.opposite.signed = -d.signed := by
    cases hd : d.negative <;> simp [signed, opposite, hd]
  rw [value, h, value]
  simp [opposite]

end Dyadic

namespace Num

/-- The value of a literal; none for the infinities and for what is not a number. -/
def rational? (n : Num) : Option ℚ := n.exactValue?.map Dyadic.value

@[simp] theorem rational?_int (n : Int) : (Num.int n).rational? = some (n : ℚ) := by
  simp [rational?, exactValue?, Dyadic.value_ofInt]

theorem isValue_iff {n : Num} {k : Int} : n.isValue k = true ↔ n.rational? = some (k : ℚ) := by
  unfold isValue rational?
  cases h : n.exactValue? with
  | none => simp
  | some d =>
    simp only [Option.map_some, Option.some_inj]
    rw [Dyadic.sameValue_iff, Dyadic.value_ofInt]

theorem rational?_negate {n : Num} {q : ℚ} (h : n.rational? = some q) : n.negate.rational? = some (-q) := by
  cases n with
  | int k =>
    rw [rational?_int, Option.some_inj] at h
    subst h
    simp [negate]
  | float x =>
    obtain ⟨d, hd, rfl⟩ := Option.map_eq_some_iff.mp h
    rw [negate, rational?, exactValue?, Dyadic.ofFloat?_neg hd, Option.map_some, d.value_opposite]

theorem negate_negate {n : Num} {q : ℚ} (h : n.rational? = some q) : n.negate.negate = n := by
  cases n with
  | int k => simp [negate]
  | float x =>
    obtain ⟨d, hd, -⟩ := Option.map_eq_some_iff.mp h
    simp only [negate, Dyadic.neg_neg_eq hd]

/-- The machine number for Euler's number is not an integer. -/
theorem euler_not_isValue (k : Int) : ¬Num.euler.isValue k = true := by
  have hexact : Num.euler.exactValue? = some ⟨false, 6121026514868073, -51⟩ := by decide
  intro h
  rw [isValue_iff, rational?, hexact, Option.map_some, Option.some_inj, Dyadic.value] at h
  have hint : (6121026514868073 : ℚ) = k * 2 ^ 51 := by
    rw [← h]
    norm_num [Dyadic.signed]
  have hint' : (6121026514868073 : Int) = k * 2 ^ 51 := by exact_mod_cast hint
  omega

theorem negate_euler_not_isValue (k : Int) : ¬Num.euler.negate.isValue k = true := by
  intro h
  have hneg := rational?_negate (isValue_iff.mp h)
  have heuler : Num.euler.negate.negate = Num.euler := by decide
  rw [heuler, ← Int.cast_neg, ← isValue_iff] at hneg
  exact euler_not_isValue (-k) hneg

end Num

end ExprCalculus
