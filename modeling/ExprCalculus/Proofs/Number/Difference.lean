import ExprCalculus.Proofs.Number.Numeral

/-!
# One less than a machine number

The difference of a finite machine number and one is finite, since half a unit in the last place of the greatest
machine numbers is more than one, and it is never the negative zero, since a difference that vanishes is the positive
one.

* `round_proper` — a positive number below the middle between the greatest machine number and the next power of two is
  rounded to a machine number.
* `Num.writable_pred` — one less than a literal that can be written can be written.
-/

namespace ExprCalculus

open Float.Model Float.Model.UnpackedFloat

/-! ## Rounding -/

theorem mantissa_shiftRight (em : ExtendedMantissa) (k : Nat) : (em >>> k).mantissa = em.mantissa / 2 ^ k := by
  induction k with
  | zero => simp [HShiftRight.hShiftRight, Nat.repeat]
  | succ k ih =>
    have hstep : (em >>> (k + 1)).mantissa = (em >>> k).mantissa / 2 := rfl
    rw [hstep, ih, Nat.div_div_eq_div_mul, Nat.pow_succ]

theorem roundedMantissa_bounds (em : ExtendedMantissa) :
    em.mantissa ≤ em.roundedMantissa ∧ em.roundedMantissa ≤ em.mantissa + em.roundBit.toNat := by
  obtain ⟨m, r, s⟩ := em
  cases r <;> cases s <;>
    simp [ExtendedMantissa.roundedMantissa, ExtendedMantissa.accuracy, Accuracy.roundToNearestEven]
  omega

/-- Rounding after a shift: not below the quotient, and above it by at most one half. -/
theorem roundedMantissa_shiftRight (m k : Nat) :
    m / 2 ^ k ≤ (ExtendedMantissa.ofMantissaAndAccuracy m .exact >>> k).roundedMantissa ∧
      2 * ((ExtendedMantissa.ofMantissaAndAccuracy m .exact >>> k).roundedMantissa * 2 ^ k) ≤ 2 * m + 2 ^ k := by
  cases k with
  | zero =>
    have hround : (ExtendedMantissa.ofMantissaAndAccuracy m .exact >>> 0).roundedMantissa = m := rfl
    rw [hround]
    omega
  | succ k =>
    obtain ⟨hlo, hhi⟩ := roundedMantissa_bounds (ExtendedMantissa.ofMantissaAndAccuracy m .exact >>> (k + 1))
    have hmantissa := mantissa_shiftRight (ExtendedMantissa.ofMantissaAndAccuracy m .exact)
    have hbit : (ExtendedMantissa.ofMantissaAndAccuracy m .exact >>> (k + 1)).roundBit = (m / 2 ^ k % 2 != 0) := by
      have hstep : (ExtendedMantissa.ofMantissaAndAccuracy m .exact >>> (k + 1)).roundBit =
        ((ExtendedMantissa.ofMantissaAndAccuracy m .exact >>> k).mantissa % 2 != 0) := rfl
      rw [hstep, hmantissa k]
      rfl
    rw [hmantissa] at hlo hhi
    have hm : (ExtendedMantissa.ofMantissaAndAccuracy m .exact).mantissa = m := rfl
    rw [hm] at hlo hhi
    refine ⟨hlo, ?_⟩
    rw [hbit] at hhi
    -- the quotient before the last place is dropped
    have hquotient : m / 2 ^ (k + 1) = m / 2 ^ k / 2 := by rw [Nat.div_div_eq_div_mul, Nat.pow_succ]
    have hdouble : 2 * (m / 2 ^ (k + 1) + (m / 2 ^ k % 2 != 0).toNat) ≤ m / 2 ^ k + 1 := by
      rw [hquotient]
      rcases Nat.mod_two_eq_zero_or_one (m / 2 ^ k) with h | h <;> simp [h] <;> omega
    rw [← Nat.mul_assoc]
    calc
      _ ≤ (m / 2 ^ k + 1) * 2 ^ (k + 1) := Nat.mul_le_mul_right _ (by omega)
      _ = 2 * (m / 2 ^ k * 2 ^ k) + 2 ^ (k + 1) := by rw [Nat.pow_succ]; ring
      _ ≤ _ := by
        have := Nat.div_mul_le_self m (2 ^ k)
        omega

/-- A finite number other than the negative zero, in the form in which it is packed. -/
inductive Proper : UnpackedFloat → Prop
  | zero : Proper (.zero .positive)
  | finite {s : Sign} {m : Nat} {e : Int} (hm : 0 < m) (hc : Dyadic.Canonical ⟨false, m, e⟩) :
    Proper (.finite s m e hm)

theorem log2_eq_fiftyTwo {m : Nat} (hlo : 2 ^ 52 ≤ m) (hhi : m < 2 ^ 53) : m.log2 = 52 := by
  rw [Nat.log2_eq_iff (by omega)]
  omega

/-- The second shift of a rounding: it takes back a carry, and else does nothing. -/
theorem shiftToTargetExponent_rounded {r : Nat} {t : Int} (hr : r ≤ 2 ^ 53) (hr0 : r ≠ 0) (ht : -1074 ≤ t) :
    let shifted := shiftToTargetExponent Format.binary64 r t .exact
    shifted.1.mantissa = (if r = 2 ^ 53 then 2 ^ 52 else r) ∧ shifted.2 = if r = 2 ^ 53 then t + 1 else t := by
  have hshift : (shiftToTargetExponent Format.binary64 r t .exact).1.mantissa =
      r / 2 ^ (max ((r.log2 : Int) + 1 + t - 53) (-1074) - t).toNat := mantissa_shiftRight _ _
  have hexponent : (shiftToTargetExponent Format.binary64 r t .exact).2 =
      t + (max ((r.log2 : Int) + 1 + t - 53) (-1074) - t).toNat := rfl
  simp only [hshift, hexponent]
  split
  · rename_i h
    subst h
    have hlog : (2 ^ 53 : Nat).log2 = 53 := Nat.log2_two_pow
    have hone : (max (((2 ^ 53 : Nat).log2 : Int) + 1 + t - 53) (-1074) - t).toNat = 1 := by
      rw [hlog]
      omega
    rw [hone]
    norm_num
  · rename_i h
    have hlog : r.log2 < 53 := (Nat.log2_lt hr0).2 (by omega)
    have hnone : (max ((r.log2 : Int) + 1 + t - 53) (-1074) - t).toNat = 0 := by omega
    rw [hnone]
    simp

/-- The exponent that a number is rounded to. -/
theorem targetExponent_eq (m : Nat) (e : Int) :
    Format.binary64.targetExponent (totalExponent m e) = max ((m.log2 : Int) + 1 + e - 53) (-1074) := rfl

theorem roundWithAccuracy_proper {s : Sign} {m : Nat} {e : Int} (hm : 0 < m) (he : -1074 ≤ e) (he' : e ≤ 970)
    (htarget : e ≤ max ((m.log2 : Int) + 1 + e - 53) (-1074)) (hsize : 2 * m < (2 ^ 54 - 1) * 2 ^ (971 - e).toNat) :
    Proper (roundWithAccuracy Format.binary64 s m e .exact) := by
  obtain ⟨t, ht⟩ : ∃ t, t = max ((m.log2 : Int) + 1 + e - 53) (-1074) := ⟨_, rfl⟩
  obtain ⟨k, hk⟩ : ∃ k, k = (t - e).toNat := ⟨_, rfl⟩
  obtain ⟨r, hr⟩ : ∃ r, r = (ExtendedMantissa.ofMantissaAndAccuracy m .exact >>> k).roundedMantissa := ⟨_, rfl⟩
  obtain ⟨hlo, hhi⟩ := roundedMantissa_shiftRight m k
  rw [← hr] at hlo hhi
  have hpow : 0 < 2 ^ k := Nat.two_pow_pos k
  have hlog := Nat.log2_self_le hm.ne'
  -- the number has at most 53 places above the target, and exactly so many above the least exponent
  have hbelow : m < 2 ^ 53 * 2 ^ k := by
    rw [← Nat.pow_add]
    exact (Nat.log2_lt hm.ne').1 (by omega)
  have hnormal : t ≠ -1074 → 2 ^ 52 * 2 ^ k ≤ m := by
    intro hne
    rw [← Nat.pow_add]
    exact le_trans (Nat.pow_le_pow_right (by decide) (by omega)) hlog
  have hquotient : t ≠ -1074 → 2 ^ 52 ≤ r := fun hne => ((Nat.le_div_iff_mul_le hpow).2 (hnormal hne)).trans hlo
  have hr53 : r ≤ 2 ^ 53 := by
    by_contra hlarge
    have : (2 ^ 53 + 1) * 2 ^ k ≤ r * 2 ^ k := Nat.mul_le_mul_right _ (by omega)
    omega
  have hr0 : r ≠ 0 := by
    by_cases hne : t = -1074
    · have hk0 : k = 0 := by omega
      rw [hk0] at hlo
      omega
    · have := hquotient hne
      omega
  -- above the greatest exponent the number would be too large, and so would a carry at it
  have htop : t ≤ 971 := by
    by_contra hlarge
    have hpow' : 2 ^ ((971 - e).toNat + 1) ≤ 2 ^ k := Nat.pow_le_pow_right (by decide) (by omega)
    have := hnormal (by omega)
    rw [Nat.pow_succ] at hpow'
    omega
  have hcarry : r = 2 ^ 53 → t ≠ 971 := by
    intro hcarry hlast
    have hk' : (971 - e).toNat = k := by omega
    rw [hcarry] at hhi
    rw [hk'] at hsize
    omega
  have hfirst : shiftToTargetExponent Format.binary64 m e .exact =
      (ExtendedMantissa.ofMantissaAndAccuracy m .exact >>> k, t) := by
    rw [shiftToTargetExponent, targetExponent_eq, ← ht, shiftToExponent, ← hk]
    congr 1
    omega
  obtain ⟨hmantissa, hexponent⟩ := shiftToTargetExponent_rounded hr53 hr0 (t := t) (by omega)
  unfold roundWithAccuracy
  simp only [hfirst, ← hr]
  split
  · rename_i hzero
    rw [hmantissa] at hzero
    split at hzero <;> omega
  · refine .finite _ ⟨?_, ?_, ?_, ?_⟩ <;> simp only [hmantissa, hexponent]
    all_goals split <;> omega

theorem log2_mul_pow {m : Nat} (hm : m ≠ 0) (k : Nat) : (m * 2 ^ k).log2 = m.log2 + k := by
  have hne : m * 2 ^ k ≠ 0 := Nat.mul_ne_zero hm (Nat.two_pow_pos k).ne'
  rw [Nat.log2_eq_iff hne, Nat.pow_add, show m.log2 + k + 1 = m.log2 + 1 + k by omega, Nat.pow_add]
  exact ⟨Nat.mul_le_mul_right _ (Nat.log2_self_le hm),
    Nat.mul_lt_mul_of_pos_right Nat.lt_log2_self (Nat.two_pow_pos k)⟩

/-- A positive number that is not too large is rounded to a machine number. -/
theorem round_proper {s : Sign} {m : Nat} {e : Int} (hm : 0 < m) (he : -1074 ≤ e) (he' : e ≤ 970)
    (hsize : 2 * m < (2 ^ 54 - 1) * 2 ^ (971 - e).toNat) : Proper (round Format.binary64 s m e) := by
  obtain ⟨t, ht⟩ : ∃ t, t = max ((m.log2 : Int) + 1 + e - 53) (-1074) := ⟨_, rfl⟩
  obtain ⟨k, hk⟩ : ∃ k, k = (e - t).toNat := ⟨_, rfl⟩
  have hround : round Format.binary64 s m e =
      roundWithAccuracy Format.binary64 s (m * 2 ^ k) (e - k) .exact := by
    rw [UnpackedFloat.round, targetExponent_eq, ← ht, decreaseExponent, ← hk, Nat.shiftLeft_eq]
  have hlog := log2_mul_pow hm.ne' k
  rw [hround]
  refine roundWithAccuracy_proper (Nat.mul_pos hm (Nat.two_pow_pos k)) (by omega) (by omega) (by omega) ?_
  have hexponent : (971 - (e - k)).toNat = (971 - e).toNat + k := by omega
  rw [hexponent, Nat.pow_add, ← Nat.mul_assoc, ← Nat.mul_assoc]
  exact Nat.mul_lt_mul_of_pos_right hsize (Nat.two_pow_pos k)

theorem normalize_proper {m : Int} {e : Int} (he : -1074 ≤ e) (he' : e ≤ 970)
    (hsize : 2 * m.natAbs < (2 ^ 54 - 1) * 2 ^ (971 - e).toNat) :
    Proper (UnpackedFloat.normalize Format.binary64 m e .positive) := by
  unfold UnpackedFloat.normalize
  split
  · rename_i h
    have hm : m < 0 := compare_lt_iff_lt.1 h
    exact round_proper (by omega) he he' (by omega)
  · exact .zero
  · rename_i h
    have hm : 0 < m := compare_gt_iff_gt.1 h
    exact round_proper (by omega) he he' (by omega)

/-! ## Packing -/

/-- What is in proper form is packed as a finite number other than the negative zero. -/
theorem Proper.pack {u : UnpackedFloat} (h : Proper u) {x : Float}
    (hx : x.toBits.toNat = (UnpackedFloat.pack Format.binary64 u).toNat) :
    ∃ d, Dyadic.ofFloat? x = some d ∧ (d.negative = true → d.mantissa ≠ 0) := by
  cases h with
  | zero =>
    refine ⟨⟨false, 0, -1074⟩, Dyadic.ofFloat?_of_bits ⟨by decide, by decide, by decide, .inr rfl⟩ ?_, by simp⟩
    rw [hx]
    rfl
  | @finite s m e hm hc =>
    obtain ⟨h1, h2, h3, h4⟩ := hc
    simp only at h1 h2 h3 h4
    refine ⟨⟨s.toBitVec.toNat == 1, m, e⟩, Dyadic.ofFloat?_of_bits ⟨h1, h2, h3, h4⟩ ?_, fun _ => hm.ne'⟩
    have hbiased : (e + 1023 + 52).toNat = (e + 1075).toNat := by omega
    have hfits : ¬ 2048 ≤ (e + 1075).toNat + 1 := by omega
    have hsign : s.toBitVec.toNat * 2 ^ 63 = if (s.toBitVec.toNat == 1) = true then 2 ^ 63 else 0 := by
      cases s <;> rfl
    simp only [Dyadic.bits]
    rw [hx, ← hsign]
    clear hx hsign
    by_cases hnormal : 2 ^ 52 ≤ m
    · have hlog := log2_eq_fiftyTwo hnormal h1
      have hpack : UnpackedFloat.pack Format.binary64 (.finite s m e hm) =
          packComponents Format.binary64 s (BitVec.ofNat 11 (e + 1075).toNat) (BitVec.ofNat 52 m) := by
        simp [UnpackedFloat.pack, Format.exponentBias, Format.mantissaBits, hbiased, hfits, hlog]
      rw [hpack, toNat_packComponents, BitVec.toNat_ofNat, BitVec.toNat_ofNat]
      omega
    · have hlog : ¬ m.log2 + 1 = 53 := by
        have := (Nat.log2_lt hm.ne').2 (not_le.1 hnormal)
        omega
      have hpack : UnpackedFloat.pack Format.binary64 (.finite s m e hm) =
          packComponents Format.binary64 s 0#11 (BitVec.ofNat 52 m) := by
        simp [UnpackedFloat.pack, Format.exponentBias, Format.mantissaBits, hbiased, hfits, hlog]
      rw [hpack, toNat_packComponents, BitVec.toNat_ofNat, BitVec.toNat_ofNat]
      omega

/-! ## One less -/

/-- A finite machine number is unpacked as a zero or in canonical form. -/
theorem unpack_cases {x : Float} {d : Dyadic} (h : Dyadic.ofFloat? x = some d) :
    (∃ s, x.toModel.unpack = .zero s) ∨
      ∃ s m e, ∃ hm : 0 < m, x.toModel.unpack = .finite s m e hm ∧ Dyadic.Canonical ⟨false, m, e⟩ := by
  have hx : x.toModel.unpack = UnpackedFloat.unpack Format.binary64 x.toBits.toBitVec := rfl
  obtain ⟨-, -, hf⟩ := Dyadic.ofFloat?_spec h
  have hm : (@unpackMantissa Format.binary64 x.toBits.toBitVec).toNat < 2 ^ 52 := BitVec.isLt _
  have he := toNat_unpackExponent x.toBits.toBitVec
  rw [UInt64.toNat_toBitVec] at he
  rw [hx, unpack_eq_ofParts, ofParts, if_neg (unpackExponent_ne hf)]
  split
  · split
    · exact .inl ⟨_, rfl⟩
    · rename_i hm0
      have hm1 : (@unpackMantissa Format.binary64 x.toBits.toBitVec).toNat ≠ 0 :=
        fun h' => hm0 (BitVec.eq_of_toNat_eq h')
      refine .inr ⟨_, _, _, Nat.pos_of_ne_zero hm1, rfl, ?_, ?_, ?_, .inr rfl⟩ <;> simp only <;> omega
  · rename_i he0
    have he1 : (@unpackExponent Format.binary64 x.toBits.toBitVec).toNat ≠ 0 :=
      fun h' => he0 (BitVec.eq_of_toNat_eq h')
    refine .inr ⟨_, _, _, by omega, rfl, ?_, ?_, ?_, .inl ?_⟩ <;> simp only <;> omega

/-- The size of a difference with one, against half a unit in the last place of the greatest machine number. -/
theorem sub_one_size {s : Sign} {m : Nat} {e : Int} (hm : m < 2 ^ 53) (he : e ≤ 971) :
    2 * (s.apply (m * 2 ^ (e - min e (-52)).toNat : Nat) - (2 ^ 52 * 2 ^ (-52 - min e (-52)).toNat : Nat)).natAbs <
      (2 ^ 54 - 1) * 2 ^ (971 - min e (-52)).toNat := by
  obtain ⟨k, hk⟩ : ∃ k, k = (971 - min e (-52)).toNat := ⟨_, rfl⟩
  have hfirst : m * 2 ^ (e - min e (-52)).toNat ≤ (2 ^ 53 - 1) * 2 ^ k :=
    Nat.mul_le_mul (by omega) (Nat.pow_le_pow_right (by decide) (by omega))
  have hsecond : 2 ^ 53 * 2 ^ (-52 - min e (-52)).toNat < 2 ^ k := by
    rw [← Nat.pow_add]
    exact Nat.pow_lt_pow_right (by decide) (by omega)
  rw [← hk]
  generalize m * 2 ^ (e - min e (-52)).toNat = a at *
  generalize 2 ^ (-52 - min e (-52)).toNat = b at *
  cases s <;> simp only [Sign.apply] <;> omega

theorem sub_one_proper {x : Float} {d : Dyadic} (h : Dyadic.ofFloat? x = some d) :
    Proper (UnpackedFloat.sub Format.binary64 x.toModel.unpack (.finite .positive (2 ^ 52) (-52) (by decide))) := by
  obtain ⟨s, hx⟩ | ⟨s, m, e, hm, hx, hc⟩ := unpack_cases h
  · rw [hx]
    exact .finite (by decide) ⟨by decide, by decide, by decide, .inl (by decide)⟩
  · rw [hx]
    obtain ⟨h1, h2, h3, -⟩ := hc
    simp only at h1 h2 h3
    simp only [UnpackedFloat.sub, decreaseExponent, Nat.shiftLeft_eq]
    exact normalize_proper (by omega) (by omega) (sub_one_size h1 h3)

/-- One less than a finite machine number is finite and not the negative zero. -/
theorem Dyadic.ofFloat?_sub_one {x : Float} {d : Dyadic} (h : ofFloat? x = some d) :
    ∃ d', ofFloat? (x - 1) = some d' ∧ (d'.negative = true → d'.mantissa ≠ 0) :=
  (sub_one_proper h).pack rfl

/-- One less than a literal that can be written can be written. -/
theorem Num.writable_pred {v : Num} (h : v.Writable) : v.pred.Writable := by
  cases v with
  | int n => exact ⟨by simp [pred, exactValue?], by simp [pred]⟩
  | float x =>
    obtain ⟨hfinite, -⟩ := h
    obtain ⟨d, hd⟩ := Option.ne_none_iff_exists'.1 hfinite
    obtain ⟨d', hd', hsign⟩ := Dyadic.ofFloat?_sub_one hd
    have hvalue : (Num.float x).pred.exactValue? = some d' := hd'
    refine ⟨by simp [hvalue], fun hzero => ?_⟩
    rw [hzero] at hvalue
    have hnegative := hvalue.symm.trans ofFloat?_negZero
    cases hnegative
    exact hsign rfl rfl

end ExprCalculus
