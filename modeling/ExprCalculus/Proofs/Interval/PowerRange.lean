import ExprCalculus.Proofs.Interval.Range

/-!
# Ranges of integer powers

Over the rational numbers, with the bounds in order, an integer power of an interval holds the powers of its members, and
its bounds are such powers, save in one case.  An even power of an interval with zero inside begins at zero, which is
the least of the powers unless the exponent is zero: then all powers are one, and the interval is from zero to one.

A negative power is the reciprocal of a positive one.  It is refused if and only if that holds zero, which it does if and
only if the interval does.

* `Interval.naturalPow_range`, `Interval.intPow_negSucc_range` — natural and negative powers.
* `power_of_interval_range` — integer powers, and when they are refused.
* `power_zero_overestimates` — a power with a bound that is no power.
-/

namespace ExprCalculus

open Exact Scalar

variable {i k : Interval ℚ}

namespace Interval

/-- Powers of numbers that are not zero are on one side of it. -/
theorem zero_mem_of_isRange_pow {n : Nat} (hk : k.IsRange ((· ^ n) '' i.members)) (h0 : (0 : ℚ) ∈ k) :
    (0 : ℚ) ∈ i := by
  by_contra hnot
  obtain ⟨x, hx, hxlo⟩ := hk.lo_mem
  obtain ⟨y, hy, hyhi⟩ := hk.hi_mem
  have hxlo : x ^ n = k.lo := hxlo
  have hyhi : y ^ n = k.hi := hyhi
  rcases zero_not_mem_iff.1 hnot with hpos | hneg
  · have : 0 < x ^ n := pow_pos (hpos.trans_le hx.1) n
    exact (hxlo ▸ this).not_ge h0.1
  rcases n.even_or_odd with heven | hodd
  · have : 0 < x ^ n := heven.pow_pos (hx.2.trans_lt hneg).ne
    exact (hxlo ▸ this).not_ge h0.1
  · have : y ^ n < 0 := hodd.pow_neg (hy.2.trans_lt hneg)
    exact (hyhi ▸ this).not_ge h0.2

variable [Functions]

/-! ## Natural powers -/

theorem isRange_pow {n : Nat} (hk : i.naturalPow n = .ok k) (hlo : ∃ x ∈ i, x ^ n = k.lo)
    (hhi : ∃ x ∈ i, x ^ n = k.hi) : k.IsRange ((· ^ n) '' i.members) := by
  refine ⟨?_, hlo, hhi⟩
  rintro _ ⟨x, hx, rfl⟩
  exact mem_naturalPow hk hx

/-- Zero is a power of a member only if the exponent is not zero. -/
theorem naturalPow_range (hi : i.lo ≤ i.hi) {n : Nat} (hn : ¬(n = 0 ∧ i.lo < 0 ∧ 0 < i.hi)) :
    ∃ k, i.naturalPow n = .ok k ∧ k.IsRange ((· ^ n) '' i.members) := by
  by_cases hrise : n % 2 = 1 ∨ 0 ≤ i.lo
  · have hle : i.lo ^ n ≤ i.hi ^ n := by
      rcases hrise with hodd | hpos
      · exact (Nat.odd_iff.2 hodd).pow_le_pow.2 hi
      · exact pow_le_pow_left₀ hpos hi n
    have hk : i.naturalPow n = .ok ⟨i.lo ^ n, i.hi ^ n⟩ := by
      rw [naturalPow_eq, if_pos hrise]
      exact image_of_le rfl rfl hle
    exact ⟨_, hk, isRange_pow hk ⟨_, lo_mem hi, rfl⟩ ⟨_, hi_mem hi, rfl⟩⟩
  have heven : Even n := by
    rw [Nat.even_iff]
    omega
  by_cases hfall : i.hi ≤ 0
  · have hk : i.naturalPow n = .ok ⟨i.hi ^ n, i.lo ^ n⟩ := by
      rw [naturalPow_eq, if_neg hrise, if_pos hfall]
      exact image_of_le rfl rfl (even_pow_le_pow heven hi hfall)
    exact ⟨_, hk, isRange_pow hk ⟨_, hi_mem hi, rfl⟩ ⟨_, lo_mem hi, rfl⟩⟩
  · have hlo : i.lo < 0 := not_le.1 fun h => hrise (.inr h)
    have hhi : 0 < i.hi := not_le.1 hfall
    have hn0 : n ≠ 0 := fun h => hn ⟨h, hlo, hhi⟩
    have hk : i.naturalPow n = .ok ⟨0, max (i.lo ^ n) (i.hi ^ n)⟩ := by
      rw [naturalPow_eq, if_neg hrise, if_neg hfall]
      exact make_of_le (le_max_of_le_left (heven.pow_nonneg i.lo))
    refine ⟨_, hk, isRange_pow hk ⟨0, ⟨hlo.le, hhi.le⟩, zero_pow hn0⟩ ?_⟩
    rcases max_choice (i.lo ^ n) (i.hi ^ n) with h | h
    · exact ⟨_, lo_mem hi, h.symm⟩
    · exact ⟨_, hi_mem hi, h.symm⟩

theorem intPow_zero_of_across (hlo : i.lo < 0) (hhi : 0 < i.hi) : i.intPow 0 = .ok ⟨0, 1⟩ := by
  have hrise : ¬(0 % 2 = 1 ∨ 0 ≤ i.lo) := by
    rintro (h | h)
    · cases h
    · exact hlo.not_ge h
  show i.naturalPow 0 = _
  rw [naturalPow_eq, if_neg hrise, if_neg hhi.not_ge, pow_zero, pow_zero, max_self]
  exact make_of_le zero_le_one

/-! ## Negative powers -/

theorem point_one_div (hk : k.lo ≤ k.hi) (h0 : (0 : ℚ) ∉ k) : (point 1).div k = .ok ⟨1 / k.hi, 1 / k.lo⟩ := by
  have hle := one_div_hi_le_one_div_lo hk h0
  have hleast : least (1 / k.hi) [1 / k.lo, 1 / k.hi, 1 / k.lo] = 1 / k.hi := by
    simp only [least_cons, min_eq_left hle, min_self]
    rfl
  have hgreatest : greatest (1 / k.hi) [1 / k.lo, 1 / k.hi, 1 / k.lo] = 1 / k.lo := by
    simp only [greatest_cons, max_eq_right hle, max_eq_left hle, max_self]
    rfl
  rw [div_eq_mul hk h0]
  simp only [mul, point, one_mul, hleast, hgreatest]
  exact make_of_le hle

theorem intPow_negSucc (hi : i.lo ≤ i.hi) (n : Nat) :
    ∃ p, p.IsRange ((· ^ (n + 1)) '' i.members) ∧ i.intPow (.negSucc n) = (point 1).div p := by
  obtain ⟨p, hp, hrange⟩ := naturalPow_range hi (n := n + 1) fun h => absurd h.1 (Nat.succ_ne_zero n)
  refine ⟨p, hrange, ?_⟩
  simp only [intPow, hp]
  rfl

theorem intPow_negSucc_range (hi : i.lo ≤ i.hi) (h0 : (0 : ℚ) ∉ i) (n : Nat) :
    ∃ k, i.intPow (.negSucc n) = .ok k ∧ k.IsRange ((· ^ Int.negSucc n) '' i.members) := by
  obtain ⟨p, hp, hdiv⟩ := intPow_negSucc hi n
  have hp0 : (0 : ℚ) ∉ p := fun h => h0 (zero_mem_of_isRange_pow hp h)
  have hpow (x : ℚ) : x ^ Int.negSucc n = 1 / x ^ (n + 1) := by rw [zpow_negSucc, one_div]
  refine ⟨_, hdiv.trans (point_one_div hp.ordered hp0), ?_, ?_, ?_⟩
  · rintro _ ⟨x, hx, rfl⟩
    show x ^ Int.negSucc n ∈ _
    rw [hpow]
    exact mem_reciprocal (reciprocal_eq hp.ordered hp0) hp0 (hp.holds _ ⟨x, hx, rfl⟩)
  · obtain ⟨x, hx, hxhi⟩ := hp.hi_mem
    exact ⟨x, hx, (hpow x).trans (congrArg (1 / ·) hxhi)⟩
  · obtain ⟨x, hx, hxlo⟩ := hp.lo_mem
    exact ⟨x, hx, (hpow x).trans (congrArg (1 / ·) hxlo)⟩

theorem intPow_negSucc_of_zero_mem (h0 : (0 : ℚ) ∈ i) (n : Nat) :
    ∃ lo hi, i.intPow (.negSucc n) = .error (.zeroDivisor lo hi) := by
  obtain ⟨p, hp, hdiv⟩ := intPow_negSucc (h0.1.trans h0.2) n
  have hp0 : (0 : ℚ) ∈ p := hp.holds 0 ⟨0, h0, zero_pow (Nat.succ_ne_zero n)⟩
  exact ⟨p.lo, p.hi, hdiv.trans (if_pos (contains_iff.2 hp0))⟩

theorem intPow_range (hi : i.lo ≤ i.hi) {n : Int} (h0 : ¬(n < 0 ∧ (0 : ℚ) ∈ i))
    (hn : ¬(n = 0 ∧ i.lo < 0 ∧ 0 < i.hi)) : ∃ k, i.intPow n = .ok k ∧ k.IsRange ((· ^ n) '' i.members) := by
  cases n with
  | ofNat n =>
    obtain ⟨k, hk, hrange⟩ := naturalPow_range hi fun h => hn ⟨congrArg Int.ofNat h.1, h.2⟩
    refine ⟨k, hk, ?_⟩
    simpa only [Int.ofNat_eq_natCast, zpow_natCast] using hrange
  | negSucc n => exact intPow_negSucc_range hi (fun h => h0 ⟨Int.negSucc_lt_zero n, h⟩) n

end Interval

/-! ## Integer powers -/

/-- **Integer powers of an interval.**  A power of an interval in order is refused if and only if the exponent is
negative and the interval holds zero.  Otherwise it holds the powers of the members and its bounds are such powers;
only the zeroth power of an interval with zero inside is larger, from zero to one. -/
theorem power_of_interval_range [Functions] (hi : i.lo ≤ i.hi) (n : Int) :
    ((∃ fault, (Value.interval i).combine .power (.real (n : ℚ)) = .error fault ∧ fault.faultClass = .zeroDivision) ↔
      n < 0 ∧ (0 : ℚ) ∈ i) ∧
    (¬(n < 0 ∧ (0 : ℚ) ∈ i) → ∃ k, (Value.interval i).combine .power (.real (n : ℚ)) = .ok (.interval k) ∧
      (∀ x ∈ i, x ^ n ∈ k) ∧
      if n = 0 ∧ i.lo < 0 ∧ 0 < i.hi then k = ⟨0, 1⟩ else k.IsRange ((· ^ n) '' i.members)) := by
  have hcombine : (Value.interval i).combine .power (.real (n : ℚ)) = Value.ofInterval (i.intPow n) :=
    congrArg Value.ofInterval (i.pow_intCast n)
  have hok (h0 : ¬(n < 0 ∧ (0 : ℚ) ∈ i)) : ∃ k, i.intPow n = .ok k ∧ (∀ x ∈ i, x ^ n ∈ k) ∧
      if n = 0 ∧ i.lo < 0 ∧ 0 < i.hi then k = ⟨0, 1⟩ else k.IsRange ((· ^ n) '' i.members) := by
    split
    · rename_i hacross
      obtain ⟨rfl, hlo, hhi⟩ := hacross
      refine ⟨⟨0, 1⟩, Interval.intPow_zero_of_across hlo hhi, fun x _ => ?_, rfl⟩
      rw [zpow_zero]
      exact ⟨zero_le_one, le_rfl⟩
    · rename_i hacross
      obtain ⟨k, hk, hrange⟩ := Interval.intPow_range hi h0 hacross
      exact ⟨k, hk, fun x hx => hrange.holds _ ⟨x, hx, rfl⟩, hrange⟩
  rw [hcombine]
  refine ⟨⟨?_, ?_⟩, fun h0 => ?_⟩
  · rintro ⟨fault, hfault, -⟩
    by_contra h0
    obtain ⟨k, hk, -⟩ := hok h0
    rw [hk] at hfault
    cases hfault
  · rintro ⟨hn, h0⟩
    obtain ⟨m, rfl⟩ := Int.eq_negSucc_of_lt_zero hn
    obtain ⟨lo, hi, herror⟩ := Interval.intPow_negSucc_of_zero_mem h0 m
    exact ⟨_, congrArg Value.ofInterval herror, rfl⟩
  · obtain ⟨k, hk, hpowers⟩ := hok h0
    exact ⟨k, congrArg Value.ofInterval hk, hpowers⟩

/-- The interval from -3 to -2 to the power -3. -/
theorem power_of_interval_range_inverseCube :
    (Value.interval ⟨-3, -2⟩).combine .power (.real ((-3 : Int) : ℚ)) = .ok (.interval (⟨-1 / 8, -1 / 27⟩ : Interval ℚ)) ∧
    (⟨-1 / 8, -1 / 27⟩ : Interval ℚ).IsRange ((· ^ (-3 : Int)) '' Interval.members ⟨-3, -2⟩) := by
  have hi : (⟨-3, -2⟩ : Interval ℚ).lo ≤ (⟨-3, -2⟩ : Interval ℚ).hi := by norm_num
  have h0 : (0 : ℚ) ∉ (⟨-3, -2⟩ : Interval ℚ) := Interval.zero_not_mem_iff.2 (.inr (by norm_num))
  obtain ⟨k, hk, -, hrange⟩ := (power_of_interval_range hi (-3)).2 fun h => h0 h.2
  have hvalue : ((Value.interval ⟨-3, -2⟩).combine .power (.real ((-3 : Int) : ℚ))).toOption =
      some (.interval (⟨-1 / 8, -1 / 27⟩ : Interval ℚ)) := by decide +kernel
  rw [hk] at hvalue
  cases hvalue
  exact ⟨hk, hrange⟩

/-- The zeroth power of the interval from -1 to 1 begins at zero, which is no zeroth power. -/
theorem power_zero_overestimates :
    (Value.interval ⟨-1, 1⟩).combine .power (.real ((0 : Int) : ℚ)) = .ok (.interval (⟨0, 1⟩ : Interval ℚ)) ∧
    ∀ x ∈ (⟨-1, 1⟩ : Interval ℚ), x ^ (0 : Int) ≠ 0 := by
  constructor
  · have hpow : (⟨-1, 1⟩ : Interval ℚ).intPow 0 = .ok ⟨0, 1⟩ :=
      Interval.intPow_zero_of_across (by norm_num) (by norm_num)
    exact congrArg Value.ofInterval ((Interval.pow_intCast _ 0).trans hpow)
  · intro x _
    rw [zpow_zero]
    exact one_ne_zero

end ExprCalculus
