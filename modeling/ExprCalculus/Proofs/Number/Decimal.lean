import ExprCalculus.Number.Numeral
import ExprCalculus.Proofs.Number.Nearest

/-!
# Shortest digits are read back

The digits that are written for a machine number lie in the interval of numbers that round to it, and
reading a decimal number depends only on its value, so the written digits are read as the same number.

* `Decimal.shortest_roundsTo` — the shortest digits of a number round to it.  Seventeen digits always reach
  the interval: there the grid of decimal numbers is finer than the interval is wide.
* `Numeral.floatOfDecimal_of_roundsTo` — a decimal number that rounds to a machine number is read as it.
-/

namespace ExprCalculus.Decimal

/-! ## The leading digit -/

theorem toDigits_bounds {n : Nat} (h : n ≠ 0) :
    10 ^ ((Nat.toDigits 10 n).length - 1) ≤ n ∧ n < 10 ^ (Nat.toDigits 10 n).length := by
  have hpos : 0 < (Nat.toDigits 10 n).length := Nat.length_toDigits_pos
  constructor
  · by_contra hlt
    have hlen : 0 < (Nat.toDigits 10 n).length - 1 := by
      by_contra h0
      rw [show (Nat.toDigits 10 n).length - 1 = 0 by omega] at hlt
      omega
    have := (Nat.length_toDigits_le_iff (by omega) hlen).2 (not_le.1 hlt)
    omega
  · exact (Nat.length_toDigits_le_iff (by omega) hpos).1 le_rfl

/-- The power of ten of the leading digit is not above the quotient. -/
theorem leadingExponent_le {num den : Nat} (hn : num ≠ 0) (hd : den ≠ 0) :
    (10 : ℚ) ^ leadingExponent num den ≤ num / den := by
  have hd' : (0 : ℚ) < den := by exact_mod_cast Nat.pos_of_ne_zero hd
  unfold leadingExponent
  split
  · rename_i h
    have hq : num / den ≠ 0 := (Nat.div_pos h (Nat.pos_of_ne_zero hd)).ne'
    have hlen : 0 < (Nat.toDigits 10 (num / den)).length := Nat.length_toDigits_pos
    calc (10 : ℚ) ^ ((Nat.toDigits 10 (num / den)).length - 1 : Int)
        = ((10 ^ ((Nat.toDigits 10 (num / den)).length - 1) : Nat) : ℚ) := by
          rw [← Nat.cast_one, ← Nat.cast_sub hlen, zpow_natCast]
          push_cast
          rfl
      _ ≤ ((num / den : Nat) : ℚ) := by exact_mod_cast (toDigits_bounds hq).1
      _ ≤ num / den := Nat.cast_div_le
  · rename_i h
    have hq : den / num ≠ 0 := (Nat.div_pos (by omega) (Nat.pos_of_ne_zero hn)).ne'
    have hlen : 0 < (Nat.toDigits 10 (den / num)).length := Nat.length_toDigits_pos
    have hlt := (toDigits_bounds hq).2
    simp only
    generalize (Nat.toDigits 10 (den / num)).length = n at *
    split
    · rename_i hle
      simp only [tenPow, Nat.pow_eq] at hle
      rw [le_div_iff₀ hd', show (1 - n : Int) = -((n - 1 : Nat) : Int) by omega, zpow_neg, zpow_natCast,
        inv_mul_le_iff₀ (by positivity)]
      rw [mul_comm]
      exact_mod_cast hle
    · rw [le_div_iff₀ hd', zpow_neg, zpow_natCast, inv_mul_le_iff₀ (by positivity), mul_comm]
      rw [Nat.div_lt_iff_lt_mul (Nat.pos_of_ne_zero hn), mul_comm] at hlt
      exact_mod_cast hlt.le

/-! ## The grid -/

/-- Between two ends, which belong to the interval if it is closed. -/
structure Within (low high : ℚ) (closed : Bool) (q : ℚ) : Prop where
  low_le : low ≤ q
  le_high : q ≤ high
  inner : closed = false → q ≠ low ∧ q ≠ high

theorem scaleDown_snd (num den : Nat) (k : Int) : (scaleDown num den k).2 = (scaleDown 0 den k).2 := by
  unfold scaleDown
  split <;> rfl

theorem scaleDown_pos (num : Nat) {den : Nat} (hd : 0 < den) (k : Int) : 0 < (scaleDown num den k).2 := by
  unfold scaleDown
  split
  · simp only [tenPow, Nat.pow_eq]
    positivity
  · exact hd

theorem scaleDown_div (num : Nat) {den : Nat} (hd : 0 < den) (k : Int) :
    ((scaleDown num den k).1 : ℚ) / (scaleDown num den k).2 = num / den / 10 ^ k := by
  unfold scaleDown
  simp only [tenPow, Nat.pow_eq]
  split
  · rename_i h
    have hp : ((10 ^ k.toNat : Nat) : ℚ) = 10 ^ k := by exact_mod_cast cast_pow_toNat h
    rw [Nat.cast_mul, hp, div_div]
  · rename_i h
    have hp : ((10 ^ (-k).toNat : Nat) : ℚ) = (10 ^ k)⁻¹ := by
      rw [← zpow_neg]
      exact_mod_cast cast_pow_toNat (b := 10) (e := -k) (by omega)
    rw [Nat.cast_mul, hp]
    field_simp

theorem scaleDown_le_iff (num : Nat) {den : Nat} (hd : 0 < den) (value : Nat) (k : Int) (c : Nat) :
    (scaleDown num den k).1 ≤ c * (scaleDown value den k).2 ↔ (num / den : ℚ) ≤ c * 10 ^ k := by
  have hd' : (0 : ℚ) < (scaleDown num den k).2 := by exact_mod_cast scaleDown_pos num hd k
  rw [scaleDown_snd value, ← scaleDown_snd num, ← div_le_iff₀ (by positivity), ← scaleDown_div num hd,
    div_le_iff₀ hd', ← Nat.cast_mul, Nat.cast_le]

theorem le_scaleDown_iff (num : Nat) {den : Nat} (hd : 0 < den) (value : Nat) (k : Int) (c : Nat) :
    c * (scaleDown value den k).2 ≤ (scaleDown num den k).1 ↔ c * 10 ^ k ≤ (num / den : ℚ) := by
  have hd' : (0 : ℚ) < (scaleDown num den k).2 := by exact_mod_cast scaleDown_pos num hd k
  rw [scaleDown_snd value, ← scaleDown_snd num, ← le_div_iff₀ (by positivity), ← scaleDown_div num hd,
    le_div_iff₀ hd', ← Nat.cast_mul, Nat.cast_le]

/-- Whether a multiple of a power of ten lies in an interval is seen on the scaled ends. -/
theorem inside_iff {low high den : Nat} (hd : 0 < den) (value : Nat) (closed : Bool) (k : Int) (c : Nat) :
    (if closed then (scaleDown low den k).1 ≤ c * (scaleDown value den k).2 &&
        c * (scaleDown value den k).2 ≤ (scaleDown high den k).1
      else (scaleDown low den k).1 < c * (scaleDown value den k).2 &&
        c * (scaleDown value den k).2 < (scaleDown high den k).1 : Bool) = true ↔
      Within (low / den) (high / den) closed (c * 10 ^ k) := by
  have hlow := scaleDown_le_iff low hd value k c
  have hlow' := le_scaleDown_iff low hd value k c
  have hhigh := le_scaleDown_iff high hd value k c
  have hhigh' := scaleDown_le_iff high hd value k c
  cases closed with
  | true =>
    simp only [if_true, Bool.and_eq_true, decide_eq_true_eq, hlow, hhigh]
    exact ⟨fun h => ⟨h.1, h.2, by simp⟩, fun h => ⟨h.1, h.2⟩⟩
  | false =>
    simp only [Bool.false_eq_true, if_false, Bool.and_eq_true, decide_eq_true_eq, ← not_le, hlow', hhigh']
    refine ⟨fun h => ⟨?_, ?_, fun _ => ⟨?_, ?_⟩⟩, fun h => ⟨?_, ?_⟩⟩
    · exact (not_le.1 h.1).le
    · exact (not_le.1 h.2).le
    · exact (not_le.1 h.1).ne'
    · exact (not_le.1 h.2).ne
    · exact not_le.2 (lt_of_le_of_ne h.1 (h.3 rfl).1.symm)
    · exact not_le.2 (lt_of_le_of_ne h.2 (h.3 rfl).2)

/-- A multiple found on the grid lies in the interval. -/
theorem onGrid_within {value low high den : Nat} (hd : 0 < den) {closed : Bool} {k : Int} {c : Nat}
    (h : onGrid value low high den closed k = some c) :
    Within (low / den) (high / den) closed (c * 10 ^ k) := by
  unfold onGrid at h
  simp only at h
  rw [← inside_iff hd value]
  split at h
  · split at h
    · cases h; assumption
    · cases h; assumption
  · cases h; assumption
  · cases h; assumption
  · cases h

theorem Within.of_lt {low high q : ℚ} (closed : Bool) (h1 : low < q) (h2 : q < high) :
    Within low high closed q := ⟨h1.le, h2.le, fun _ => ⟨h1.ne', h2.ne⟩⟩

/-- A grid that is finer than the interval is wide has a multiple in it. -/
theorem onGrid_ne_none {value low high den : Nat} (hd : 0 < den) (closed : Bool) {k : Int}
    (hlow : low < value) (hhigh : value < high) (hk : (10 : ℚ) ^ k < high / den - low / den) :
    onGrid value low high den closed k ≠ none := by
  have hd' : (0 : ℚ) < den := by exact_mod_cast hd
  have hlow' : (low / den : ℚ) < value / den := by gcongr
  have hhigh' : (value / den : ℚ) < high / den := by gcongr
  -- the two neighbours enclose the value, so if both miss the interval their distance is too large
  have hbelow : (((scaleDown value den k).1 / (scaleDown value den k).2 : Nat) : ℚ) * 10 ^ k ≤ value / den :=
    (le_scaleDown_iff value hd value k _).1 (Nat.div_mul_le_self _ _)
  have habove : (value / den : ℚ) ≤
      (((scaleDown value den k).1 / (scaleDown value den k).2 + 1 : Nat) : ℚ) * 10 ^ k :=
    (scaleDown_le_iff value hd value k _).1 (by
      rw [Nat.succ_mul]
      exact (Nat.lt_div_mul_add (scaleDown_pos value hd k)).le)
  intro hnone
  unfold onGrid at hnone
  simp only at hnone
  split at hnone
  · split at hnone <;> cases hnone
  · cases hnone
  · cases hnone
  · rename_i h1 h2
    rw [← Bool.not_eq_true, inside_iff hd value] at h1 h2
    generalize (scaleDown value den k).1 / (scaleDown value den k).2 = c at *
    have h3 : ¬ (low / den : ℚ) < c * 10 ^ k := fun h => h1 (.of_lt _ h (by linarith))
    have h4 : ¬ ((c + 1 : Nat) * 10 ^ k : ℚ) < high / den := fun h => h2 (.of_lt _ (by linarith) h)
    push_cast at h4
    linarith

/-! ## The shortest digits -/

/-- The number that digits stand for. -/
def Digits.value (d : Digits) : ℚ := d.digits * 10 ^ d.exponent

theorem dropZeros_value (fuel : Nat) (d : Digits) : (dropZeros fuel d).value = d.value := by
  induction fuel generalizing d with
  | zero => rfl
  | succ fuel ih =>
    unfold dropZeros
    split
    · rename_i h
      rw [ih]
      have hdigits : (d.digits : ℚ) = (d.digits / 10 : Nat) * 10 := by
        exact_mod_cast (Nat.div_mul_cancel (Nat.dvd_of_mod_eq_zero h.2)).symm
      simp only [Digits.value]
      rw [hdigits, zpow_add_one₀ (by norm_num)]
      ring
    · rfl

theorem scaled_eq (n : Nat) (e : Int) :
    ((n * twoPow (e - 2).toNat : Nat) : ℚ) / (twoPow (2 - e).toNat : Nat) = n * 2 ^ (e - 2) := by
  simp only [twoPow, Nat.pow_eq]
  rcases le_total 0 (e - 2) with h | h
  · have hp : ((2 ^ (e - 2).toNat : Nat) : ℚ) = 2 ^ (e - 2) := by exact_mod_cast cast_pow_toNat h
    rw [Nat.cast_mul, hp, show (2 - e).toNat = 0 by omega]
    simp
  · have hp : ((2 ^ (2 - e).toNat : Nat) : ℚ) = (2 ^ (e - 2))⁻¹ := by
      rw [← zpow_neg, neg_sub]
      exact_mod_cast cast_pow_toNat (b := 2) (e := 2 - e) (by omega)
    rw [hp, show (e - 2).toNat = 0 by omega]
    simp

/-- The lower end of the interval of numbers that are read as `mantissa · 2 ^ exponent`, in quarters of a
unit. -/
def lowEnd (mantissa : Nat) (exponent : Int) : Nat :=
  if mantissa = twoPow 52 ∧ -1074 < exponent then 4 * mantissa - 1 else 4 * mantissa - 2

theorem cast_lowEnd {m : Nat} {e : Int} (hm : m ≠ 0) :
    (lowEnd m e : ℚ) = 4 * m - (if m = 2 ^ 52 ∧ -1074 < e then 1 else 2) := by
  have hiff : (m = twoPow 52 ∧ -1074 < e) ↔ (m = 2 ^ 52 ∧ -1074 < e) := Iff.rfl
  unfold lowEnd
  simp only [hiff]
  split <;> rw [Nat.cast_sub (by omega)] <;> push_cast <;> rfl

theorem findSome?_range_ne_none {α : Type} {f : Nat → Option α} {n i : Nat} (hi : i < n) (h : f i ≠ none) :
    (List.range n).findSome? f ≠ none := by
  rw [Ne, List.findSome?_eq_none_iff]
  exact fun hall => h (hall i (List.mem_range.2 hi))

theorem twoPow_pos (n : Nat) : 0 < twoPow n := Nat.pow_pos (by omega)

/-- At seventeen digits the grid is fine enough. -/
theorem grid_of_seventeen {m : Nat} {e : Int} (hm : m ≠ 0) (hlt : m < 2 ^ 53) :
    (10 : ℚ) ^ (leadingExponent (4 * m * twoPow (e - 2).toNat) (twoPow (2 - e).toNat) - 16) <
      ((4 * m + 2) * twoPow (e - 2).toNat : Nat) / (twoPow (2 - e).toNat : Nat) -
        (lowEnd m e * twoPow (e - 2).toNat : Nat) / (twoPow (2 - e).toNat : Nat) := by
  have hlead := leadingExponent_le
    (Nat.mul_ne_zero (by omega : 4 * m ≠ 0) (twoPow_pos (e - 2).toNat).ne') (twoPow_pos (2 - e).toNat).ne'
  rw [scaled_eq] at hlead ⊢
  rw [scaled_eq]
  generalize leadingExponent (4 * m * twoPow (e - 2).toNat) (twoPow (2 - e).toNat) = lead at *
  have hu : (0 : ℚ) < 2 ^ (e - 2) := by positivity
  have hm53 : (m : ℚ) < 2 ^ 53 := by exact_mod_cast hlt
  rw [zpow_sub₀ (by norm_num), div_lt_iff₀ (by positivity)]
  push_cast at hlead ⊢
  rw [cast_lowEnd hm]
  split
  · rename_i h
    have hm52 : (m : ℚ) = 2 ^ 52 := by exact_mod_cast h.1
    rw [hm52] at hlead ⊢
    nlinarith
  · nlinarith

theorem shortest_found {m : Nat} {e : Int} (hm : m ≠ 0) (hlt : m < 2 ^ 53) :
    ∃ c k, onGrid (4 * m * twoPow (e - 2).toNat) (lowEnd m e * twoPow (e - 2).toNat)
        ((4 * m + 2) * twoPow (e - 2).toNat) (twoPow (2 - e).toNat) (m % 2 = 0) k = some c ∧
      shortest m e = dropZeros 20 ⟨c, k⟩ := by
  have hlow : lowEnd m e < 4 * m := by
    unfold lowEnd
    split <;> omega
  have h16 := onGrid_ne_none (twoPow_pos (2 - e).toNat) (m % 2 = 0)
    (Nat.mul_lt_mul_of_pos_right hlow (twoPow_pos (e - 2).toNat))
    (Nat.mul_lt_mul_of_pos_right (by omega : 4 * m < 4 * m + 2) (twoPow_pos (e - 2).toNat))
    (grid_of_seventeen hm hlt)
  generalize hlead : leadingExponent (4 * m * twoPow (e - 2).toNat) (twoPow (2 - e).toNat) = lead at h16
  generalize hf : (fun n : Nat => (onGrid (4 * m * twoPow (e - 2).toNat) (lowEnd m e * twoPow (e - 2).toNat)
    ((4 * m + 2) * twoPow (e - 2).toNat) (twoPow (2 - e).toNat) (m % 2 = 0) (lead - n)).map
      fun c => dropZeros 20 ⟨c, lead - n⟩) = f
  have hshortest : shortest m e = ((List.range 17).findSome? f).getD
      ⟨4 * m * twoPow (e - 2).toNat / twoPow (2 - e).toNat, 0⟩ := by
    subst hf hlead
    rfl
  cases hfound : (List.range 17).findSome? f with
  | none =>
    refine absurd hfound (findSome?_range_ne_none (by omega : 16 < 17) ?_)
    subst hf
    simpa using h16
  | some d =>
    obtain ⟨n, -, hn⟩ := List.exists_of_findSome?_eq_some hfound
    subst hf
    obtain ⟨c, hc, rfl⟩ := Option.map_eq_some_iff.1 hn
    exact ⟨c, lead - n, hc, by rw [hshortest, hfound]; rfl⟩

/-- **The shortest digits are read back as the number they are written for.** -/
theorem shortest_roundsTo {m : Nat} {e : Int} (hm : m ≠ 0) (hlt : m < 2 ^ 53) :
    Dyadic.RoundsTo m e (shortest m e).value := by
  obtain ⟨c, k, hc, hs⟩ := shortest_found (e := e) hm hlt
  have hw := onGrid_within (twoPow_pos _) hc
  rw [scaled_eq, scaled_eq] at hw
  rw [hs, dropZeros_value]
  obtain ⟨h1, h2, h3⟩ := hw
  have hlow := cast_lowEnd (e := e) hm
  refine ⟨?_, ?_, ?_⟩
  · rw [← hlow]
    exact h1
  · exact_mod_cast h2
  · intro hodd
    obtain ⟨h4, h5⟩ := h3 (by simp [hodd])
    rw [hlow, if_neg (by omega)] at h4
    exact ⟨h4, by exact_mod_cast h5⟩

end ExprCalculus.Decimal

namespace ExprCalculus.Numeral

theorem tenPow_pos (n : Nat) : 0 < tenPow n := Nat.pow_pos (by omega)

theorem two_pow_lt {n : Nat} (h : n ≤ 1200) : (2 : ℚ) ^ n < 10 ^ 400 := by
  calc (2 : ℚ) ^ n ≤ 2 ^ (3 * 400) := pow_le_pow_right₀ (by norm_num) h
    _ = (2 ^ 3) ^ 400 := pow_mul _ _ _
    _ < 10 ^ 400 := pow_lt_pow_left₀ (by norm_num) (by norm_num) (by norm_num)

/-- What rounds to a machine number is neither too large nor too small to be computed. -/
theorem roundsTo_range {d : Dyadic} {q : ℚ} (hc : d.Canonical) (hm : d.mantissa ≠ 0)
    (hr : Dyadic.RoundsTo d.mantissa d.exponent q) : (10 : ℚ) ^ (-400 : Int) < q ∧ q < 10 ^ (400 : Int) := by
  obtain ⟨s, m, e⟩ := d
  obtain ⟨hc1, hc2, hc3, -⟩ := hc
  obtain ⟨hlow, hhigh, -⟩ := hr
  simp only at *
  have hm1 : (1 : ℚ) ≤ m := by exact_mod_cast Nat.one_le_iff_ne_zero.2 hm
  have hm53 : (m : ℚ) + 1 ≤ 2 ^ 53 := by exact_mod_cast hc1
  have hu1 : (2 : ℚ) ^ (-1076 : Int) ≤ 2 ^ (e - 2) := zpow_le_zpow_right₀ (by norm_num) (by omega)
  have hu2 : (2 : ℚ) ^ (e - 2) ≤ 2 ^ (969 : Int) := zpow_le_zpow_right₀ (by norm_num) (by omega)
  constructor
  · have hlow' : (4 * m - 2) * 2 ^ (e - 2) ≤ q := by
      refine le_trans ?_ hlow
      gcongr
      split <;> norm_num
    have hsmall : (10 : ℚ) ^ (-400 : Int) < 2 ^ (-1076 : Int) := by
      rw [zpow_neg, zpow_neg, inv_lt_inv₀ (by positivity) (by positivity), zpow_ofNat, zpow_ofNat]
      exact two_pow_lt (by norm_num)
    nlinarith
  · calc q ≤ (4 * m + 2) * 2 ^ (e - 2) := hhigh
      _ ≤ 2 ^ 55 * 2 ^ (969 : Int) := by
        gcongr
        linarith
      _ = 2 ^ (55 + 969) := (pow_add _ _ _).symm
      _ < 10 ^ (400 : Int) := two_pow_lt (by norm_num)

/-- A decimal number that rounds to a machine number is read as it. -/
theorem floatOfDecimal_of_roundsTo {x : Float} {d : Dyadic} {m : Nat} {e : Int}
    (h : Dyadic.ofFloat? x = some d) (hs : d.negative = false) (hm : d.mantissa ≠ 0)
    (hr : Dyadic.RoundsTo d.mantissa d.exponent (m * 10 ^ e)) : floatOfDecimal m e = x := by
  obtain ⟨hc, -, -⟩ := Dyadic.ofFloat?_spec h
  obtain ⟨hlow, hhigh⟩ := roundsTo_range hc hm hr
  have hm0 : m ≠ 0 := by
    rintro rfl
    rw [Nat.cast_zero, zero_mul] at hlow
    exact absurd hlow (not_lt.2 (by positivity))
  obtain ⟨hd1, hd2⟩ := Decimal.toDigits_bounds hm0
  have hlen : 0 < (Nat.toDigits 10 m).length := Nat.length_toDigits_pos
  generalize hn : (Nat.toDigits 10 m).length = n at *
  have hd1' : (10 : ℚ) ^ ((n : Int) - 1) ≤ m := by
    rw [show (n : Int) - 1 = ((n - 1 : Nat) : Int) by omega, zpow_natCast]
    exact_mod_cast hd1
  have hd2' : (m : ℚ) < 10 ^ (n : Int) := by
    rw [zpow_natCast]
    exact_mod_cast hd2
  have hmono : ∀ {a b : Int}, (10 : ℚ) ^ a < 10 ^ b → a < b := fun h =>
    (zpow_lt_zpow_iff_right₀ (by norm_num)).1 h
  have hle : (n : Int) - 1 + e < 400 := by
    apply hmono
    rw [zpow_add₀ (by norm_num)]
    refine lt_of_le_of_lt ?_ hhigh
    gcongr
  have hge : -400 < (n : Int) + e := by
    apply hmono
    rw [zpow_add₀ (by norm_num)]
    refine hlow.trans ?_
    gcongr
  unfold floatOfDecimal
  rw [if_neg hm0]
  simp only [hn]
  rw [if_neg (by omega), if_neg (by omega)]
  split
  · rename_i he
    refine Dyadic.nearest_of_roundsTo h hs hm (Nat.mul_ne_zero hm0 (tenPow_pos _).ne') one_ne_zero ?_
    have hp : ((tenPow e.toNat : Nat) : ℚ) = 10 ^ e := by exact_mod_cast cast_pow_toNat he
    rwa [Nat.cast_mul, hp, Nat.cast_one, div_one]
  · rename_i he
    refine Dyadic.nearest_of_roundsTo h hs hm hm0 (tenPow_pos _).ne' ?_
    have hp : ((tenPow (-e).toNat : Nat) : ℚ) = (10 ^ e)⁻¹ := by
      rw [← zpow_neg]
      exact_mod_cast cast_pow_toNat (b := 10) (e := -e) (by omega)
    rwa [hp, div_inv_eq_mul]

end ExprCalculus.Numeral
