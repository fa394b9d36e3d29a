import ExprCalculus.Proofs.Number.Binary64

/-!
# Rounding to the nearest machine number

`Dyadic.nearest` chooses the exponent of the result first and rounds the quotient at that exponent.  The
quotients that end at a given number form an interval around it; `RoundsTo` describes it and
`Dyadic.nearest_of_roundsTo` says that all of it is read as that number.
-/

namespace ExprCalculus

/-- A natural power as a power with an integer exponent. -/
theorem cast_pow_toNat {b : Nat} {e : Int} (he : 0 ≤ e) : ((b ^ e.toNat : Nat) : ℚ) = (b : ℚ) ^ e := by
  rw [Nat.cast_pow, ← zpow_natCast, Int.toNat_of_nonneg he]

namespace Dyadic

/-! ## The quotient as an integer -/

theorem roundQuotient_eq {num den m : Nat} (hd : 0 < den) (hlo : 2 * m * den ≤ 2 * num + den)
    (hhi : 2 * num ≤ 2 * m * den + den)
    (heven : 2 * m * den = 2 * num + den ∨ 2 * num = 2 * m * den + den → m % 2 = 0) :
    roundQuotient num den = m := by
  have hdiv := Nat.div_add_mod num den
  have hmod := Nat.mod_lt num hd
  unfold roundQuotient
  simp only
  generalize num / den = whole at *
  generalize num % den = rest at *
  have h1 : m ≤ whole + 1 := by
    by_contra h
    have : (whole + 2) * den ≤ m * den := Nat.mul_le_mul_right _ (by omega)
    nlinarith
  have h2 : whole ≤ m := by
    by_contra h
    have : (m + 1) * den ≤ whole * den := Nat.mul_le_mul_right _ (by omega)
    nlinarith
  obtain rfl | rfl : m = whole ∨ m = whole + 1 := by omega
  · have h3 : 2 * num = 2 * m * den + 2 * rest := by nlinarith
    rw [if_neg (by omega)]
  · have h3 : 2 * num + 2 * den = 2 * (whole + 1) * den + 2 * rest := by nlinarith
    rw [if_pos (by omega)]

/-! ## The exponent -/

theorem log2_bounds {n : Nat} (h : n ≠ 0) :
    (2 : ℚ) ^ (n.log2 : ℤ) ≤ n ∧ (n : ℚ) < 2 ^ ((n.log2 : ℤ) + 1) := by
  constructor
  · rw [zpow_natCast]
    exact_mod_cast Nat.log2_self_le h
  · have := Nat.lt_log2_self (n := n)
    rw [← Nat.cast_succ, zpow_natCast]
    exact_mod_cast this

/-- The integer part of a quotient divided by a power of two. -/
theorem scaledQuotient_lt (num k : Nat) {den : Nat} (hd : 0 < den) (g : Int) :
    (if 0 ≤ g then num / (den * 2 ^ g.toNat) else num * 2 ^ (-g).toNat / den) < k ↔
      (num / den : ℚ) < k * 2 ^ g := by
  have hd' : (0 : ℚ) < den := by exact_mod_cast hd
  have hg : (0 : ℚ) < 2 ^ g := by positivity
  split
  · rename_i h
    have hp : ((2 ^ g.toNat : Nat) : ℚ) = 2 ^ g := by exact_mod_cast cast_pow_toNat h
    rw [Nat.div_lt_iff_lt_mul (by positivity), div_lt_iff₀ hd', ← @Nat.cast_lt ℚ]
    push_cast at hp ⊢
    rw [hp, show (k : ℚ) * 2 ^ g * den = k * (den * 2 ^ g) by ring]
  · rename_i h
    have hp : ((2 ^ (-g).toNat : Nat) : ℚ) = (2 ^ g)⁻¹ := by
      rw [← zpow_neg]
      exact_mod_cast cast_pow_toNat (b := 2) (e := -g) (by omega)
    rw [Nat.div_lt_iff_lt_mul hd, div_lt_iff₀ hd', ← @Nat.cast_lt ℚ]
    push_cast at hp ⊢
    rw [hp, ← div_eq_mul_inv, div_lt_iff₀ hg, show (k : ℚ) * 2 ^ g * den = k * den * 2 ^ g by ring]

theorem quotientExponent_spec {num den : Nat} (hn : num ≠ 0) (hd : den ≠ 0) :
    -1074 ≤ quotientExponent num den ∧ (num / den : ℚ) < 2 ^ (quotientExponent num den + 53) ∧
      (quotientExponent num den = -1074 ∨ (2 : ℚ) ^ (quotientExponent num den + 52) ≤ num / den) := by
  obtain ⟨hn1, hn2⟩ := log2_bounds hn
  obtain ⟨hd1, hd2⟩ := log2_bounds hd
  have hd' : (0 : ℚ) < den := by exact_mod_cast Nat.pos_of_ne_zero hd
  generalize hg : (num.log2 - den.log2 - 52 : Int) = g
  have hlow : (2 : ℚ) ^ (g + 51) ≤ num / den := by
    rw [le_div_iff₀ hd']
    calc (2 : ℚ) ^ (g + 51) * den ≤ 2 ^ (g + 51) * 2 ^ ((den.log2 : ℤ) + 1) := by gcongr
      _ = 2 ^ (num.log2 : ℤ) := by rw [← zpow_add₀ (by norm_num)]; congr 1; omega
      _ ≤ num := hn1
  have hhigh : (num / den : ℚ) < 2 ^ (g + 53) := by
    rw [div_lt_iff₀ hd']
    calc (num : ℚ) < 2 ^ ((num.log2 : ℤ) + 1) := hn2
      _ = 2 ^ (g + 53) * 2 ^ (den.log2 : ℤ) := by rw [← zpow_add₀ (by norm_num)]; congr 1; omega
      _ ≤ 2 ^ (g + 53) * den := by gcongr
  have hwhole := scaledQuotient_lt num (2 ^ 52) (Nat.pos_of_ne_zero hd) g
  have hcast : ((2 ^ 52 : Nat) : ℚ) * 2 ^ g = 2 ^ (g + 52) := by
    rw [zpow_add₀ (by norm_num)]
    norm_num
    ring
  rw [hcast] at hwhole
  have hmono : ∀ {a b : Int}, a ≤ b → (2 : ℚ) ^ a ≤ 2 ^ b := fun h => zpow_le_zpow_right₀ (by norm_num) h
  have he : quotientExponent num den =
      max (if (num / den : ℚ) < 2 ^ (g + 52) then g - 1 else g) (-1074) := by
    unfold quotientExponent
    simp only [twoPow, Nat.pow_eq, hg, hwhole]
  rw [he]
  refine ⟨le_max_right _ _, ?_, ?_⟩
  · split
    · rename_i h
      exact h.trans_le (hmono (by omega))
    · exact hhigh.trans_le (hmono (by omega))
  · split
    · rename_i h
      rcases le_total (g - 1) (-1074) with h' | h'
      · exact .inl (max_eq_right h')
      · right
        rw [max_eq_left h']
        exact (hmono (by omega)).trans hlow
    · rename_i h
      rcases le_total g (-1074) with h' | h'
      · exact .inl (max_eq_right h')
      · right
        rw [max_eq_left h']
        exact not_lt.1 h

theorem quotientExponent_eq {num den : Nat} {e : Int} (hn : num ≠ 0) (hd : den ≠ 0) (he : -1074 ≤ e)
    (hlt : (num / den : ℚ) < 2 ^ (e + 53)) (hle : e = -1074 ∨ (2 : ℚ) ^ (e + 52) ≤ num / den) :
    quotientExponent num den = e := by
  obtain ⟨he', hlt', hle'⟩ := quotientExponent_spec hn hd
  generalize quotientExponent num den = e' at *
  have hmono : ∀ {a b : Int}, (2 : ℚ) ^ a < 2 ^ b → a < b := fun h =>
    (zpow_lt_zpow_iff_right₀ (by norm_num)).1 h
  rcases lt_trichotomy e' e with h | h | h
  · have := hmono ((hle.resolve_left (by omega)).trans_lt hlt')
    omega
  · exact h
  · have := hmono ((hle'.resolve_left (by omega)).trans_lt hlt)
    omega

/-- A quotient is rounded to the integer that is within a half of it, to an even one if it is a half off. -/
theorem roundQuotient_of_near {num den m : Nat} (hd : 0 < den) (hlo : 2 * m - 1 ≤ 2 * (num / den : ℚ))
    (hhi : 2 * (num / den : ℚ) ≤ 2 * m + 1)
    (heven : 2 * (num / den : ℚ) = 2 * m - 1 ∨ 2 * (num / den : ℚ) = 2 * m + 1 → m % 2 = 0) :
    roundQuotient num den = m := by
  have hd' : (0 : ℚ) < den := by exact_mod_cast hd
  have hq : (num : ℚ) = (num / den : ℚ) * den := by field_simp
  apply roundQuotient_eq hd
  · rw [← @Nat.cast_le ℚ]
    push_cast
    nlinarith
  · rw [← @Nat.cast_le ℚ]
    push_cast
    nlinarith
  · rintro (h | h) <;> rw [← @Nat.cast_inj ℚ] at h <;> push_cast at h
    · exact heven (.inl (by apply mul_right_cancel₀ hd'.ne'; linarith))
    · exact heven (.inr (by apply mul_right_cancel₀ hd'.ne'; linarith))

/-- The quotient rounded at an exponent. -/
theorem roundQuotient_scaled (num m : Nat) {den : Nat} (hd : 0 < den) (e : Int)
    (hlo : (2 * m - 1) * 2 ^ e ≤ 2 * (num / den : ℚ)) (hhi : 2 * (num / den : ℚ) ≤ (2 * m + 1) * 2 ^ e)
    (heven : 2 * (num / den : ℚ) = (2 * m - 1) * 2 ^ e ∨ 2 * (num / den : ℚ) = (2 * m + 1) * 2 ^ e →
      m % 2 = 0) :
    (if 0 ≤ e then roundQuotient num (den * 2 ^ e.toNat) else roundQuotient (num * 2 ^ (-e).toNat) den) =
      m := by
  have hg : (0 : ℚ) < 2 ^ e := by positivity
  rw [← le_div_iff₀ hg, mul_div_assoc] at hlo
  rw [← div_le_iff₀ hg, mul_div_assoc] at hhi
  rw [← div_eq_iff hg.ne', ← div_eq_iff hg.ne', mul_div_assoc] at heven
  split
  · rename_i h
    have hp : ((2 ^ e.toNat : Nat) : ℚ) = 2 ^ e := by exact_mod_cast cast_pow_toNat h
    have hq : (num / (den * 2 ^ e.toNat : Nat) : ℚ) = num / den / 2 ^ e := by
      rw [Nat.cast_mul, hp, div_div]
    rw [← hq] at hlo hhi heven
    exact roundQuotient_of_near (by positivity) hlo hhi heven
  · rename_i h
    have hp : ((2 ^ (-e).toNat : Nat) : ℚ) = (2 ^ e)⁻¹ := by
      rw [← zpow_neg]
      exact_mod_cast cast_pow_toNat (b := 2) (e := -e) (by omega)
    have hq : ((num * 2 ^ (-e).toNat : Nat) / den : ℚ) = num / den / 2 ^ e := by
      rw [Nat.cast_mul, hp]
      field_simp
    rw [← hq] at hlo hhi heven
    exact roundQuotient_of_near hd hlo hhi heven

/-! ## The interval around a machine number -/

/-- The rational numbers that round to the positive number `mantissa · 2 ^ exponent`: they lie within half a
unit of its last place, or within a quarter below a power of two.  The ends belong to even mantissas. -/
structure RoundsTo (mantissa : Nat) (exponent : Int) (q : ℚ) : Prop where
  low : (4 * mantissa - (if mantissa = 2 ^ 52 ∧ -1074 < exponent then 1 else 2)) * 2 ^ (exponent - 2) ≤ q
  high : q ≤ (4 * mantissa + 2) * 2 ^ (exponent - 2)
  ends : mantissa % 2 = 1 →
    q ≠ (4 * mantissa - 2) * 2 ^ (exponent - 2) ∧ q ≠ (4 * mantissa + 2) * 2 ^ (exponent - 2)

theorem nearest_eq {num den m : Nat} {e : Int} (hn : num ≠ 0) (he : quotientExponent num den = e)
    (hm : (if 0 ≤ e then roundQuotient num (den * 2 ^ e.toNat)
      else roundQuotient (num * 2 ^ (-e).toNat) den) = m) :
    nearest num den =
      Float.ofBits (min ((e + 1074).toNat * 2 ^ 52 + m) (2047 * 2 ^ 52)).toUInt64 := by
  unfold nearest
  rw [if_neg hn]
  simp only [twoPow, Nat.pow_eq, he, hm]

theorem ofBits_bits {x : Float} {d : Dyadic} (h : ofFloat? x = some d) (hs : d.negative = false) {n : Nat}
    (hn : n = (d.exponent + 1074).toNat * 2 ^ 52 + d.mantissa) :
    Float.ofBits (min n (2047 * 2 ^ 52)).toUInt64 = x := by
  obtain ⟨hc, hb, -⟩ := ofFloat?_spec h
  obtain ⟨h1, h2, h3, h4⟩ := hc
  simp only [bits, hs, Bool.false_eq_true, if_false, Nat.zero_add] at hb
  have : (min n (2047 * 2 ^ 52)).toUInt64 = x.toBits := by
    apply UInt64.toNat_inj.1
    rw [hb]
    simp only [Nat.toUInt64, UInt64.toNat_ofNat']
    omega
  rw [this, Float.ofBits_toBits]

theorem two_zpow_sub_add (e : Int) (n : Nat) : (2 : ℚ) ^ (e - 2 + n) = 2 ^ n * 2 ^ (e - 2) := by
  rw [zpow_add₀ (by norm_num), zpow_natCast, mul_comm]

/-- **Whatever rounds to a machine number is read as it.** -/
theorem nearest_of_roundsTo {x : Float} {d : Dyadic} {num den : Nat} (h : ofFloat? x = some d)
    (hs : d.negative = false) (hm : d.mantissa ≠ 0) (hn : num ≠ 0) (hd : den ≠ 0)
    (hr : RoundsTo d.mantissa d.exponent (num / den)) : nearest num den = x := by
  obtain ⟨⟨hc1, hc2, hc3, hc4⟩, -, -⟩ := ofFloat?_spec h
  have hbits := fun n => @ofBits_bits x d h hs n
  obtain ⟨s, m, e⟩ := d
  simp only at *
  obtain ⟨hlow, hhigh, hends⟩ := hr
  have hd' := Nat.pos_of_ne_zero hd
  have h0 := two_zpow_sub_add e 1
  have h1 := two_zpow_sub_add e 2
  have h53 := two_zpow_sub_add e 53
  have h54 := two_zpow_sub_add e 54
  have h55 := two_zpow_sub_add e 55
  rw [show e - 2 + (1 : Nat) = e - 1 by omega] at h0
  rw [show e - 2 + (2 : Nat) = e by omega] at h1
  rw [show e - 2 + (53 : Nat) = (e - 1) + 52 by omega] at h53
  rw [show e - 2 + (54 : Nat) = e + 52 by omega] at h54
  rw [show e - 2 + (55 : Nat) = e + 53 by omega] at h55
  have hu : (0 : ℚ) < 2 ^ (e - 2) := by positivity
  have hm53 : (m : ℚ) + 1 ≤ 2 ^ 53 := by exact_mod_cast hc1
  by_cases hcase : -1074 < e ∧ (num / den : ℚ) < 2 ^ (e + 52)
  · -- just below a power of two: the quotient is rounded up at the exponent below
    obtain ⟨he, hq⟩ := hcase
    have hm52 : m = 2 ^ 52 := by
      by_contra hne
      have hm' : (2 : ℚ) ^ 52 + 1 ≤ m := by exact_mod_cast (by omega : 2 ^ 52 + 1 ≤ m)
      rw [if_neg (fun h => hne h.1)] at hlow
      nlinarith
    rw [if_pos ⟨hm52, he⟩, hm52] at hlow
    push_cast at hlow
    have hexp : quotientExponent num den = e - 1 := by
      refine quotientExponent_eq hn hd (by omega) ?_ (.inr ?_)
      · rwa [show e - 1 + 53 = e + 52 by omega]
      · rw [h53]
        nlinarith
    have hround := roundQuotient_scaled num (2 ^ 53) hd' (e - 1) (by push_cast; nlinarith)
      (by push_cast; nlinarith) (fun _ => rfl)
    rw [nearest_eq hn hexp hround]
    exact hbits _ (by omega)
  · have hexp : quotientExponent num den = e := by
      refine quotientExponent_eq hn hd hc2 ?_ ?_
      · rw [h55]
        nlinarith
      · by_cases he : e = -1074
        · exact .inl he
        · exact .inr (not_lt.1 fun h => hcase ⟨by omega, h⟩)
    have hlow' : (4 * m - 2) * 2 ^ (e - 2) ≤ (num / den : ℚ) := by
      split at hlow <;> nlinarith
    have hround := roundQuotient_scaled num m hd' e (by nlinarith) (by nlinarith) ?_
    · rw [nearest_eq hn hexp hround]
      exact hbits _ rfl
    · intro htie
      by_contra hodd
      obtain ⟨hne1, hne2⟩ := hends (by omega)
      rcases htie with htie | htie
      · exact hne1 (by rw [h1] at htie; linarith)
      · exact hne2 (by rw [h1] at htie; linarith)

end Dyadic

end ExprCalculus
