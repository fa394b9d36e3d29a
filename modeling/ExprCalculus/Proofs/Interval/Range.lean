import Mathlib.Algebra.Order.Group.Pointwise.Interval
import ExprCalculus.Proofs.Interval.Operations

/-!
# Ranges of the operations on intervals

Over the rational numbers, with the bounds in order, the operations of arithmetic on intervals give no more than they
have to: both bounds of the result are results of the operation on members, and so is all between them.  The only
refusal is that of a divisor that holds zero.

That the results on members are held is known from `Operations`.  The bounds are found among the results on bounds.  For
what lies between, one operand moves from one bound to the other and then the second; a quotient is a product with a
reciprocal, and the reciprocals of an interval fill an interval.

* `Interval.IsRange` — an interval that holds a set of numbers and has its bounds from it.
* `combine_intervals_exact` — sums, differences, products, quotients and negatives.
-/

namespace ExprCalculus

open Exact Scalar

variable {i j k : Interval ℚ} {x y z : ℚ}

/-! ## Ranges -/

namespace Interval

/-- The numbers that an interval holds. -/
def members (i : Interval ℚ) : Set ℚ := Set.Icc i.lo i.hi

/-- An interval that holds all of a set and has both bounds from it. -/
structure IsRange (k : Interval ℚ) (s : Set ℚ) : Prop where
  holds : ∀ z ∈ s, z ∈ k
  lo_mem : k.lo ∈ s
  hi_mem : k.hi ∈ s

theorem IsRange.ordered {s : Set ℚ} (hk : k.IsRange s) : k.lo ≤ k.hi := (hk.holds _ hk.lo_mem).2

theorem one_div_hi_le_one_div_lo (hj : j.lo ≤ j.hi) (h0 : (0 : ℚ) ∉ j) : 1 / j.hi ≤ 1 / j.lo :=
  one_div_le_one_div_of_mem h0 (lo_mem hj) (hi_mem hj) hj

theorem zero_not_mem_reciprocal (hj : j.lo ≤ j.hi) (h0 : (0 : ℚ) ∉ j) :
    (0 : ℚ) ∉ (⟨1 / j.hi, 1 / j.lo⟩ : Interval ℚ) := by
  rw [zero_not_mem_iff] at h0 ⊢
  rcases h0 with h | h
  · exact .inl (one_div_pos.2 (h.trans_le hj))
  · exact .inr (one_div_neg.2 (hj.trans_lt h))

/-- A function of two numbers that takes all values between two of its values when one of the numbers changes. -/
structure TakesBetween (f : ℚ → ℚ → ℚ) : Prop where
  first : ∀ x x' y, Set.uIcc (f x y) (f x' y) ⊆ (f · y) '' Set.uIcc x x'
  second : ∀ x y y', Set.uIcc (f x y) (f x y') ⊆ f x '' Set.uIcc y y'

theorem takesBetween_add : TakesBetween (· + ·) where
  first x x' y := (Set.image_add_const_uIcc y x x').ge
  second x y y' := (Set.image_const_add_uIcc x y y').ge

theorem takesBetween_sub : TakesBetween (· - ·) where
  first x x' y := (Set.image_sub_const_uIcc y x x').ge
  second x y y' := (Set.image_const_sub_uIcc x y y').ge

theorem takesBetween_mul : TakesBetween (· * ·) where
  first x x' y := (Set.image_mul_const_uIcc y x x').ge
  second x y y' := (Set.image_const_mul_uIcc x y y').ge

/-- What lies between two values is a value: on the way from one pair of numbers to the other, the first number changes
and then the second. -/
theorem IsRange.members_subset {f : ℚ → ℚ → ℚ} (hf : TakesBetween f)
    (hk : k.IsRange (Set.image2 f i.members j.members)) : k.members ⊆ Set.image2 f i.members j.members := by
  intro z hz
  obtain ⟨x, hx, y, hy, hlo⟩ := hk.lo_mem
  obtain ⟨x', hx', y', hy', hhi⟩ := hk.hi_mem
  have hbetween : z ∈ Set.uIcc (f x y) (f x' y') := by
    rw [hlo, hhi]
    exact Set.Icc_subset_uIcc hz
  rcases Set.uIcc_subset_uIcc_union_uIcc (b := f x' y) hbetween with h | h
  · obtain ⟨u, hu, rfl⟩ := hf.first x x' y h
    exact ⟨u, Set.uIcc_subset_Icc hx hx' hu, y, hy, rfl⟩
  · obtain ⟨u, hu, rfl⟩ := hf.second x' y y' h
    exact ⟨x', hx', u, Set.uIcc_subset_Icc hy hy' hu, rfl⟩

end Interval

/-! ## Arithmetic -/

section Arithmetic

variable [Functions]

theorem Scalar.least_mem (ys : List ℚ) (x : ℚ) : least x ys ∈ x :: ys := by
  induction ys generalizing x with
  | nil => simp [least]
  | cons y ys ih =>
    rw [least_cons]
    rcases List.mem_cons.1 (ih (min x y)) with h | h
    · rw [h]
      rcases min_choice x y with hmin | hmin <;> simp [hmin]
    · exact List.mem_cons_of_mem _ (List.mem_cons_of_mem _ h)

theorem Scalar.greatest_mem (ys : List ℚ) (x : ℚ) : greatest x ys ∈ x :: ys := by
  induction ys generalizing x with
  | nil => simp [greatest]
  | cons y ys ih =>
    rw [greatest_cons]
    rcases List.mem_cons.1 (ih (max x y)) with h | h
    · rw [h]
      rcases max_choice x y with hmax | hmax <;> simp [hmax]
    · exact List.mem_cons_of_mem _ (List.mem_cons_of_mem _ h)

namespace Interval

theorem image_of_le {f : ℚ → Except (Fault ℚ) ℚ} {lo hi : ℚ} (hx : f x = .ok lo) (hy : f y = .ok hi) (h : lo ≤ hi) :
    image f x y = .ok ⟨lo, hi⟩ := by
  simp only [image, hx, hy, make_of_le h]

theorem add_range (hi : i.lo ≤ i.hi) (hj : j.lo ≤ j.hi) :
    ∃ k, i.add j = .ok k ∧ k.IsRange (Set.image2 (· + ·) i.members j.members) := by
  have hadd : i.add j = .ok ⟨i.lo + j.lo, i.hi + j.hi⟩ := make_of_le (add_le_add hi hj)
  refine ⟨_, hadd, ?_, ?_, ?_⟩
  · rintro _ ⟨x, hx, y, hy, rfl⟩
    exact mem_add hadd hx hy
  · exact ⟨i.lo, lo_mem hi, j.lo, lo_mem hj, rfl⟩
  · exact ⟨i.hi, hi_mem hi, j.hi, hi_mem hj, rfl⟩

theorem sub_range (hi : i.lo ≤ i.hi) (hj : j.lo ≤ j.hi) :
    ∃ k, i.sub j = .ok k ∧ k.IsRange (Set.image2 (· - ·) i.members j.members) := by
  have hsub : i.sub j = .ok ⟨i.lo - j.hi, i.hi - j.lo⟩ := make_of_le (sub_le_sub hi hj)
  refine ⟨_, hsub, ?_, ?_, ?_⟩
  · rintro _ ⟨x, hx, y, hy, rfl⟩
    exact mem_sub hsub hx hy
  · exact ⟨i.lo, lo_mem hi, j.hi, hi_mem hj, rfl⟩
  · exact ⟨i.hi, hi_mem hi, j.lo, lo_mem hj, rfl⟩

theorem neg_range (hi : i.lo ≤ i.hi) :
    ∃ k, i.neg = .ok k ∧ k.IsRange (Neg.neg '' i.members) ∧ k.members ⊆ Neg.neg '' i.members := by
  have hneg : i.neg = .ok ⟨-i.hi, -i.lo⟩ := make_of_le (neg_le_neg hi)
  refine ⟨_, hneg, ⟨?_, ⟨i.hi, hi_mem hi, rfl⟩, ⟨i.lo, lo_mem hi, rfl⟩⟩, ?_⟩
  · rintro _ ⟨x, hx, rfl⟩
    exact mem_neg hneg hx
  · rintro z ⟨hlo, hhi⟩
    exact ⟨-z, ⟨le_neg_of_le_neg hhi, neg_le_of_neg_le hlo⟩, neg_neg z⟩

/-- The least and the greatest product of two bounds are products of members. -/
theorem mul_range (hi : i.lo ≤ i.hi) (hj : j.lo ≤ j.hi) :
    ∃ k, i.mul j = .ok k ∧ k.IsRange (Set.image2 (· * ·) i.members j.members) := by
  set others := [i.lo * j.hi, i.hi * j.lo, i.hi * j.hi]
  have hcorner : ∀ p ∈ i.lo * j.lo :: others, p ∈ Set.image2 (· * ·) i.members j.members := by
    intro p hp
    simp only [others, List.mem_cons, List.not_mem_nil, or_false] at hp
    rcases hp with rfl | rfl | rfl | rfl
    · exact ⟨i.lo, lo_mem hi, j.lo, lo_mem hj, rfl⟩
    · exact ⟨i.lo, lo_mem hi, j.hi, hi_mem hj, rfl⟩
    · exact ⟨i.hi, hi_mem hi, j.lo, lo_mem hj, rfl⟩
    · exact ⟨i.hi, hi_mem hi, j.hi, hi_mem hj, rfl⟩
  have hordered : least (i.lo * j.lo) others ≤ greatest (i.lo * j.lo) others :=
    (least_le _ _ _ List.mem_cons_self).trans (le_greatest _ _ _ List.mem_cons_self)
  have hmul : i.mul j = .ok ⟨least (i.lo * j.lo) others, greatest (i.lo * j.lo) others⟩ := make_of_le hordered
  refine ⟨_, hmul, ?_, hcorner _ (least_mem _ _), hcorner _ (greatest_mem _ _)⟩
  rintro _ ⟨x, hx, y, hy, rfl⟩
  exact mem_mul hmul hx hy

/-! ## Quotients -/

theorem reciprocal_eq (hj : j.lo ≤ j.hi) (h0 : (0 : ℚ) ∉ j) : j.reciprocal = .ok ⟨1 / j.hi, 1 / j.lo⟩ := by
  have hne {y : ℚ} (hy : y ∈ j) : quotient 1 y = .ok (1 / y) := by
    refine if_neg ?_
    rintro rfl
    exact h0 hy
  rw [reciprocal_eq_image]
  exact image_of_le (hne (hi_mem hj)) (hne (lo_mem hj)) (one_div_hi_le_one_div_lo hj h0)

/-- The interval of the reciprocals holds nothing else: its own reciprocals are the interval again. -/
theorem members_reciprocal (hj : j.lo ≤ j.hi) (h0 : (0 : ℚ) ∉ j) :
    (⟨1 / j.hi, 1 / j.lo⟩ : Interval ℚ).members = (1 / ·) '' j.members := by
  have hr := reciprocal_eq hj h0
  ext y
  constructor
  · intro hy
    have h0' := zero_not_mem_reciprocal hj h0
    have hback := reciprocal_eq (one_div_hi_le_one_div_lo hj h0) h0'
    simp only [one_div_one_div] at hback
    exact ⟨1 / y, mem_reciprocal hback h0' hy, one_div_one_div y⟩
  · rintro ⟨x, hx, rfl⟩
    exact mem_reciprocal hr h0 hx

theorem div_eq_mul (hj : j.lo ≤ j.hi) (h0 : (0 : ℚ) ∉ j) : i.div j = i.mul ⟨1 / j.hi, 1 / j.lo⟩ := by
  have hcontains : j.contains zero = false := by
    rw [Bool.eq_false_iff]
    exact fun h => h0 (contains_iff.1 h)
  simp only [div, hcontains, reciprocal_eq hj h0, Bool.false_eq_true, if_false]

theorem div_range (hi : i.lo ≤ i.hi) (hj : j.lo ≤ j.hi) (h0 : (0 : ℚ) ∉ j) :
    ∃ k, i.div j = .ok k ∧ k.IsRange (Set.image2 (· / ·) i.members j.members) ∧
      k.members ⊆ Set.image2 (· / ·) i.members j.members := by
  have hquotients : Set.image2 (· / ·) i.members j.members =
      Set.image2 (· * ·) i.members (⟨1 / j.hi, 1 / j.lo⟩ : Interval ℚ).members := by
    rw [members_reciprocal hj h0, Set.image2_image_right]
    simp only [mul_one_div]
  obtain ⟨k, hk, hrange⟩ := mul_range (j := ⟨1 / j.hi, 1 / j.lo⟩) hi (one_div_hi_le_one_div_lo hj h0)
  rw [hquotients, div_eq_mul hj h0]
  exact ⟨k, hk, hrange, hrange.members_subset takesBetween_mul⟩

end Interval

/-! ## Operands -/

/-- Operands of interval arithmetic, at least one of them an interval, and the intervals that they stand for: a number
stands for the interval that holds it alone. -/
inductive Value.Operands : Value ℚ → Value ℚ → Interval ℚ → Interval ℚ → Prop where
  | intervals (i j : Interval ℚ) : Operands (.interval i) (.interval j) i j
  | number_right (i : Interval ℚ) (y : ℚ) : Operands (.interval i) (.real y) i (.point y)
  | number_left (x : ℚ) (j : Interval ℚ) : Operands (.real x) (.interval j) (.point x) j

/-- The operations of arithmetic, each with what it is on numbers. -/
inductive BinOp.IsArithmetic : BinOp → (ℚ → ℚ → ℚ) → Prop where
  | plus : IsArithmetic .plus (· + ·)
  | minus : IsArithmetic .minus (· - ·)
  | times : IsArithmetic .times (· * ·)
  | divide : IsArithmetic .divide (· / ·)

variable {a b : Value ℚ} {op : BinOp} {f : ℚ → ℚ → ℚ}

theorem Value.Operands.combine_eq (h : Operands a b i j) (hop : op.IsArithmetic f) :
    a.combine op b = combineIntervals op i j := by
  cases h <;> cases hop <;> rfl

theorem combineIntervals_range (hop : op.IsArithmetic f) (hi : i.lo ≤ i.hi) (hj : j.lo ≤ j.hi)
    (h0 : op = .divide → (0 : ℚ) ∉ j) :
    ∃ k, Value.combineIntervals op i j = .ok (.interval k) ∧ k.IsRange (Set.image2 f i.members j.members) ∧
      k.members ⊆ Set.image2 f i.members j.members := by
  cases hop with
  | plus =>
    obtain ⟨k, hk, hrange⟩ := Interval.add_range hi hj
    exact ⟨k, congrArg Value.ofInterval hk, hrange, hrange.members_subset Interval.takesBetween_add⟩
  | minus =>
    obtain ⟨k, hk, hrange⟩ := Interval.sub_range hi hj
    exact ⟨k, congrArg Value.ofInterval hk, hrange, hrange.members_subset Interval.takesBetween_sub⟩
  | times =>
    obtain ⟨k, hk, hrange⟩ := Interval.mul_range hi hj
    exact ⟨k, congrArg Value.ofInterval hk, hrange, hrange.members_subset Interval.takesBetween_mul⟩
  | divide =>
    obtain ⟨k, hk, hrange⟩ := Interval.div_range hi hj (h0 rfl)
    exact ⟨k, congrArg Value.ofInterval hk, hrange⟩

theorem combineIntervals_zeroDivisor (h0 : (0 : ℚ) ∈ j) :
    Value.combineIntervals .divide i j = .error (.zeroDivisor j.lo j.hi) := by
  have hdiv : i.div j = .error (.zeroDivisor j.lo j.hi) := if_pos (Interval.contains_iff.2 h0)
  exact congrArg Value.ofInterval hdiv

/-- **Arithmetic on intervals is exact.**  A sum, difference, product or quotient of two intervals in order, one of which
may be given as a number, holds the results of the operation on their members, its bounds are such results, and so is
all between them; a negative likewise.  A quotient is refused if and only if the divisor holds zero, and nothing is
refused for the order of its bounds. -/
theorem combine_intervals_exact (hab : Value.Operands a b i j) (hi : i.lo ≤ i.hi) (hj : j.lo ≤ j.hi) :
    (∀ op f, BinOp.IsArithmetic op f → (op = .divide → (0 : ℚ) ∉ j) →
      ∃ k, a.combine op b = .ok (.interval k) ∧ k.IsRange (Set.image2 f i.members j.members) ∧
        k.members ⊆ Set.image2 f i.members j.members) ∧
    ((∃ fault, a.combine .divide b = .error fault ∧ fault.faultClass = .zeroDivision) ↔ (0 : ℚ) ∈ j) ∧
    (∃ k, (Value.interval i).negate = .ok (.interval k) ∧ k.IsRange (Neg.neg '' i.members) ∧
      k.members ⊆ Neg.neg '' i.members) ∧
    ∀ op f, BinOp.IsArithmetic op f → ∀ lo hi, a.combine op b ≠ .error (.reversed lo hi) := by
  have hrange (op f) (hop : BinOp.IsArithmetic op f) (h0 : op = .divide → (0 : ℚ) ∉ j) := by
    have h := combineIntervals_range hop hi hj h0
    rwa [← hab.combine_eq hop] at h
  have hzero (h0 : (0 : ℚ) ∈ j) : a.combine .divide b = .error (.zeroDivisor j.lo j.hi) :=
    (hab.combine_eq .divide).trans (combineIntervals_zeroDivisor h0)
  refine ⟨hrange, ⟨?_, fun h0 => ⟨_, hzero h0, rfl⟩⟩, ?_, ?_⟩
  · rintro ⟨fault, hfault, -⟩
    by_contra h0
    obtain ⟨k, hk, -⟩ := hrange .divide _ .divide fun _ => h0
    rw [hk] at hfault
    cases hfault
  · obtain ⟨k, hk, hneg⟩ := Interval.neg_range hi
    exact ⟨k, congrArg Value.ofInterval hk, hneg⟩
  · intro op f hop lo hi hreversed
    by_cases h0 : op = .divide ∧ (0 : ℚ) ∈ j
    · rw [h0.1, hzero h0.2] at hreversed
      cases hreversed
    · obtain ⟨k, hk, -⟩ := hrange op f hop fun hdiv hmem => h0 ⟨hdiv, hmem⟩
      rw [hk] at hreversed
      cases hreversed

end Arithmetic

/-- The interval from -2 to 1 divided by that from -3 to -1. -/
theorem combine_intervals_exact_acrossZero :
    (0 : ℚ) ∉ (⟨-3, -1⟩ : Interval ℚ) ∧
    (Value.interval ⟨-2, 1⟩).combine .divide (.interval ⟨-3, -1⟩) = .ok (.interval (⟨-1, 2⟩ : Interval ℚ)) ∧
    (⟨-1, 2⟩ : Interval ℚ).IsRange
      (Set.image2 (· / ·) (Interval.members ⟨-2, 1⟩) (Interval.members ⟨-3, -1⟩)) := by
  have h0 : (0 : ℚ) ∉ (⟨-3, -1⟩ : Interval ℚ) := Interval.zero_not_mem_iff.2 (.inr (by norm_num))
  have hi : (⟨-2, 1⟩ : Interval ℚ).lo ≤ (⟨-2, 1⟩ : Interval ℚ).hi := by norm_num
  have hj : (⟨-3, -1⟩ : Interval ℚ).lo ≤ (⟨-3, -1⟩ : Interval ℚ).hi := by norm_num
  obtain ⟨k, hk, hrange, -⟩ := (combine_intervals_exact (.intervals _ _) hi hj).1 _ _ .divide fun _ => h0
  have hvalue : ((Value.interval ⟨-2, 1⟩).combine .divide (.interval ⟨-3, -1⟩)).toOption =
      some (.interval (⟨-1, 2⟩ : Interval ℚ)) := by decide +kernel
  rw [hk] at hvalue
  cases hvalue
  exact ⟨h0, hk, hrange⟩

end ExprCalculus
