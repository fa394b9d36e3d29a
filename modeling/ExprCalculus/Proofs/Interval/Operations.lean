import ExprCalculus.Proofs.Interval.Rational
import Mathlib.Algebra.Order.Ring.Abs
import Mathlib.Tactic.Linarith

/-!
# What the operations on intervals enclose

Over the rational numbers, each operation on intervals that succeeds holds the results of the operation on all the
members of its operands.  Where the operation on numbers can be refused, it is not: an interval that has been divided
by, or raised to a negative power, does not hold zero.
-/

namespace ExprCalculus

open Exact Scalar

variable {i j k : Interval ℚ} {x y : ℚ}

/-! ## Least and greatest of several numbers -/

section

variable [Functions]

theorem Scalar.least_cons (x y : ℚ) (ys : List ℚ) : least x (y :: ys) = least (min x y) ys := by
  have h : (if less y x then y else x) = min x y := by
    simp only [less, decide_eq_true_eq]
    grind
  simp only [least, List.foldl_cons, h]

theorem Scalar.greatest_cons (x y : ℚ) (ys : List ℚ) : greatest x (y :: ys) = greatest (max x y) ys := by
  have h : (if less x y then y else x) = max x y := by
    simp only [less, decide_eq_true_eq]
    grind
  simp only [greatest, List.foldl_cons, h]

theorem Scalar.least_le (ys : List ℚ) (x z : ℚ) (hz : z ∈ x :: ys) : least x ys ≤ z := by
  induction ys generalizing x z with
  | nil => simp_all [least]
  | cons y ys ih =>
    rw [least_cons]
    rcases List.mem_cons.1 hz with rfl | hz
    · exact (ih (min z y) (min z y) List.mem_cons_self).trans (min_le_left _ _)
    rcases List.mem_cons.1 hz with rfl | hz
    · exact (ih (min x z) (min x z) List.mem_cons_self).trans (min_le_right _ _)
    · exact ih _ z (List.mem_cons_of_mem _ hz)

theorem Scalar.le_greatest (ys : List ℚ) (x z : ℚ) (hz : z ∈ x :: ys) : z ≤ greatest x ys := by
  induction ys generalizing x z with
  | nil => simp_all [greatest]
  | cons y ys ih =>
    rw [greatest_cons]
    rcases List.mem_cons.1 hz with rfl | hz
    · exact (le_max_left _ _).trans (ih (max z y) (max z y) List.mem_cons_self)
    rcases List.mem_cons.1 hz with rfl | hz
    · exact (le_max_right _ _).trans (ih (max x z) (max x z) List.mem_cons_self)
    · exact ih _ z (List.mem_cons_of_mem _ hz)

end

namespace Interval

/-! ## Members -/

instance : Membership ℚ (Interval ℚ) := ⟨fun i x => i.lo ≤ x ∧ x ≤ i.hi⟩

theorem mem_iff : x ∈ i ↔ i.lo ≤ x ∧ x ≤ i.hi := Iff.rfl

theorem mem_point (x : ℚ) : x ∈ point x := ⟨le_rfl, le_rfl⟩

theorem lo_mem (hi : i.lo ≤ i.hi) : i.lo ∈ i := ⟨le_rfl, hi⟩

theorem hi_mem (hi : i.lo ≤ i.hi) : i.hi ∈ i := ⟨hi, le_rfl⟩

theorem zero_not_mem_iff : (0 : ℚ) ∉ i ↔ 0 < i.lo ∨ i.hi < 0 := by
  rw [mem_iff, not_and_or, not_le, not_le]

/-- An interval without zero lies on one side of it, where reciprocals decrease. -/
theorem one_div_le_one_div_of_mem (h0 : (0 : ℚ) ∉ i) (hx : x ∈ i) (hy : y ∈ i) (hxy : x ≤ y) : 1 / y ≤ 1 / x := by
  rcases zero_not_mem_iff.1 h0 with hpos | hneg
  · exact one_div_le_one_div_of_le (hpos.trans_le hx.1) hxy
  · exact one_div_le_one_div_of_neg_of_le (hy.2.trans_lt hneg) hxy

/-- A multiple of a member is no less than that of one of the bounds. -/
theorem exists_bound_mul_le (hx : x ∈ i) (y : ℚ) : ∃ a, (a = i.lo ∨ a = i.hi) ∧ a * y ≤ x * y := by
  rcases le_total 0 y with hy | hy
  · exact ⟨i.lo, .inl rfl, mul_le_mul_of_nonneg_right hx.1 hy⟩
  · exact ⟨i.hi, .inr rfl, mul_le_mul_of_nonpos_right hx.2 hy⟩

theorem exists_le_bound_mul (hx : x ∈ i) (y : ℚ) : ∃ a, (a = i.lo ∨ a = i.hi) ∧ x * y ≤ a * y := by
  obtain ⟨a, ha, h⟩ := exists_bound_mul_le hx (-y)
  exact ⟨a, ha, by simpa using h⟩

/-- An even power decreases on what is not positive. -/
theorem even_pow_le_pow {n : Nat} (hn : Even n) (hxy : x ≤ y) (hy : y ≤ 0) : y ^ n ≤ x ^ n := by
  rw [← hn.neg_pow y, ← hn.neg_pow x]
  exact pow_le_pow_left₀ (neg_nonneg.2 hy) (neg_le_neg hxy) n

theorem eq_of_quotient {a b q : ℚ} (h : quotient a b = .ok q) : b ≠ 0 ∧ q = a / b := by
  unfold quotient at h
  split at h
  · cases h
  · rename_i hb
    cases h
    exact ⟨hb, rfl⟩

variable [Functions]

theorem eq_of_make {lo hi : ℚ} (h : make lo hi = .ok i) : i = ⟨lo, hi⟩ := by
  unfold make at h
  split at h
  · cases h
  · cases h
    rfl

theorem make_of_le {lo hi : ℚ} (h : lo ≤ hi) : make lo hi = .ok ⟨lo, hi⟩ := by
  have hless : less hi lo = false := decide_eq_false (not_lt.2 h)
  simp only [make, hless, Bool.false_eq_true, if_false]

theorem contains_iff : i.contains x = true ↔ x ∈ i := by
  simp [contains, mem_iff, atMost]

/-! ## Sums, products and quotients -/

theorem mem_add (h : i.add j = .ok k) (hx : x ∈ i) (hy : y ∈ j) : x + y ∈ k := by
  obtain rfl := eq_of_make h
  exact ⟨add_le_add hx.1 hy.1, add_le_add hx.2 hy.2⟩

theorem mem_sub (h : i.sub j = .ok k) (hx : x ∈ i) (hy : y ∈ j) : x - y ∈ k := by
  obtain rfl := eq_of_make h
  exact ⟨sub_le_sub hx.1 hy.2, sub_le_sub hx.2 hy.1⟩

theorem mem_neg (h : i.neg = .ok k) (hx : x ∈ i) : -x ∈ k := by
  obtain rfl := eq_of_make h
  exact ⟨neg_le_neg hx.2, neg_le_neg hx.1⟩

theorem mem_mul (h : i.mul j = .ok k) (hx : x ∈ i) (hy : y ∈ j) : x * y ∈ k := by
  -- a product of two bounds is one of the four that are compared
  have corner {a b : ℚ} (ha : a = i.lo ∨ a = i.hi) (hb : b = j.lo ∨ b = j.hi) :
      a * b ∈ i.lo * j.lo :: [i.lo * j.hi, i.hi * j.lo, i.hi * j.hi] := by
    rcases ha with rfl | rfl <;> rcases hb with rfl | rfl <;> simp
  obtain rfl := eq_of_make h
  constructor
  · obtain ⟨a, ha, hax⟩ := exists_bound_mul_le hx y
    obtain ⟨b, hb, hby⟩ := exists_bound_mul_le hy a
    calc
      _ ≤ a * b := least_le _ _ _ (corner ha hb)
      _ ≤ a * y := by linarith
      _ ≤ x * y := hax
  · obtain ⟨a, ha, hax⟩ := exists_le_bound_mul hx y
    obtain ⟨b, hb, hby⟩ := exists_le_bound_mul hy a
    calc
      x * y ≤ a * y := hax
      _ ≤ a * b := by linarith
      _ ≤ _ := le_greatest _ _ _ (corner ha hb)

/-- The image of two numbers has the two values for bounds. -/
theorem image_eq_ok {f : ℚ → Except (Fault ℚ) ℚ} (h : image f x y = .ok k) :
    f x = .ok k.lo ∧ f y = .ok k.hi := by
  unfold image at h
  split at h
  · cases h
  rename_i lo hlo
  split at h
  · cases h
  rename_i hi hhi
  obtain rfl := eq_of_make h
  exact ⟨hlo, hhi⟩

theorem reciprocal_eq_image (i : Interval ℚ) : i.reciprocal = image (quotient 1) i.hi i.lo := rfl

theorem mem_reciprocal (h : i.reciprocal = .ok k) (h0 : (0 : ℚ) ∉ i) (hx : x ∈ i) : 1 / x ∈ k := by
  rw [reciprocal_eq_image] at h
  obtain ⟨hlo, hhi⟩ := image_eq_ok h
  obtain ⟨-, hlo⟩ := eq_of_quotient hlo
  obtain ⟨-, hhi⟩ := eq_of_quotient hhi
  have hi : i.lo ≤ i.hi := hx.1.trans hx.2
  rw [mem_iff, hlo, hhi]
  exact ⟨one_div_le_one_div_of_mem h0 hx (hi_mem hi) hx.2, one_div_le_one_div_of_mem h0 (lo_mem hi) hx hx.1⟩

theorem mem_div (h : i.div j = .ok k) (hx : x ∈ i) (hy : y ∈ j) : y ≠ 0 ∧ x / y ∈ k := by
  unfold div at h
  split at h
  · cases h
  rename_i hj
  have hj : (0 : ℚ) ∉ j := fun h0 => hj (contains_iff.2 h0)
  split at h
  · cases h
  rename_i r hr
  refine ⟨fun hy0 => hj (hy0 ▸ hy), ?_⟩
  have := mem_mul h hx (mem_reciprocal hr hj hy)
  rwa [mul_one_div] at this

/-! ## Powers -/

theorem eq_of_image_pow {n : Nat} (h : image (fun z => naturalPower z n) x y = .ok k) : k = ⟨x ^ n, y ^ n⟩ := by
  obtain ⟨hlo, hhi⟩ := image_eq_ok h
  have hlo : x ^ n = k.lo := Except.ok.inj hlo
  have hhi : y ^ n = k.hi := Except.ok.inj hhi
  rw [hlo, hhi]

theorem naturalPow_eq (i : Interval ℚ) (n : Nat) :
    i.naturalPow n =
      if n % 2 = 1 ∨ 0 ≤ i.lo then image (naturalPower · n) i.lo i.hi
      else if i.hi ≤ 0 then image (naturalPower · n) i.hi i.lo
      else make 0 (max (i.lo ^ n) (i.hi ^ n)) := by
  have hrise : (n % 2 = 1 || atMost zero i.lo) = true ↔ n % 2 = 1 ∨ 0 ≤ i.lo := by
    simp [atMost, zero]
  have hfall : atMost i.hi zero = true ↔ i.hi ≤ 0 := decide_eq_true_iff
  simp only [naturalPow, hrise, hfall, naturalPower, greatest_cons]
  rfl

theorem mem_naturalPow {n : Nat} (h : i.naturalPow n = .ok k) (hx : x ∈ i) : x ^ n ∈ k := by
  obtain ⟨hix, hxi⟩ := hx
  rw [naturalPow_eq] at h
  split at h
  · rename_i hrise
    obtain rfl := eq_of_image_pow h
    rcases hrise with hodd | hpos
    · exact ⟨(Nat.odd_iff.2 hodd).pow_le_pow.2 hix, (Nat.odd_iff.2 hodd).pow_le_pow.2 hxi⟩
    · exact ⟨pow_le_pow_left₀ hpos hix n, pow_le_pow_left₀ (hpos.trans hix) hxi n⟩
  rename_i heven
  have hn : Even n := by
    rw [Nat.even_iff]
    omega
  split at h
  · rename_i hneg
    obtain rfl := eq_of_image_pow h
    exact ⟨even_pow_le_pow hn hxi hneg, even_pow_le_pow hn hix (hxi.trans hneg)⟩
  · obtain rfl := eq_of_make h
    refine ⟨hn.pow_nonneg x, ?_⟩
    rcases le_total 0 x with hpos | hneg
    · exact le_max_of_le_right (pow_le_pow_left₀ hpos hxi n)
    · exact le_max_of_le_left (even_pow_le_pow hn hix hneg)

/-- An integer power of an interval holds that of each member, which is not refused. -/
theorem mem_intPow {n : Int} (h : i.intPow n = .ok k) (hx : x ∈ i) : ∃ z ∈ k, intPower x n = .ok z := by
  cases n with
  | ofNat n =>
    exact ⟨x ^ n, mem_naturalPow h hx, by simp [intPower]⟩
  | negSucc n =>
    simp only [intPow] at h
    split at h
    · cases h
    rename_i p hp
    obtain ⟨hne, hmem⟩ := mem_div h (mem_point 1) (mem_naturalPow hp hx)
    have hx0 : x ≠ 0 := fun h0 => hne (by simp [h0])
    refine ⟨1 / x ^ (n + 1), hmem, ?_⟩
    simp [intPower, hx0, zpow_negSucc]

theorem pow_intCast (i : Interval ℚ) (n : Int) : i.pow n = i.intPow n := by
  have h : Scalar.integer? (n : ℚ) = some n := integer?_intCast n
  simp only [pow, h]

theorem mem_pow {n : Int} (h : i.pow n = .ok k) (hx : x ∈ i) :
    ∃ z ∈ k, (power x (n : ℚ) : Except (Fault ℚ) ℚ) = .ok z := by
  rw [pow_intCast] at h
  rw [power_intCast]
  exact mem_intPow h hx

end Interval

end ExprCalculus
