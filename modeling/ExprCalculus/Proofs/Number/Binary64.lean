import Mathlib
import ExprCalculus.Number.Basic

/-!
# The bits of a machine number

The exact value of a finite machine number and its bits determine each other, and the operations the
literals need act on the bits as expected.

* `Dyadic.ofFloat?_spec`, `Dyadic.ofFloat?_of_bits` — which exact values there are and which bits they have.
* `Dyadic.ofFloat?_neg` — negation changes the sign of the exact value and nothing else.
* `Dyadic.lt_zero_iff` — a machine number is below zero if its exact value is.
-/

namespace ExprCalculus

open Float.Model Float.Model.UnpackedFloat

/-! ## Sign, exponent field and fraction -/

theorem toNat_unpackMantissa (b : BitVec 64) :
    (@unpackMantissa Format.binary64 b).toNat = b.toNat % 2 ^ 52 := by
  simp [unpackMantissa]

theorem toNat_unpackExponent (b : BitVec 64) :
    (@unpackExponent Format.binary64 b).toNat = b.toNat / 2 ^ 52 % 2 ^ 11 := by
  simp [unpackExponent, Nat.shiftRight_eq_div_pow]

theorem toNat_unpackSign (b : BitVec 64) :
    (@unpackSign Format.binary64 b).toNat = b.toNat / 2 ^ 63 := by
  have := b.isLt
  simp [unpackSign, Nat.shiftRight_eq_div_pow]
  omega

theorem toNat_packComponents (s : Sign) (e : BitVec 11) (m : BitVec 52) :
    (packComponents Format.binary64 s e m).toNat =
      s.toBitVec.toNat * 2 ^ 63 + e.toNat * 2 ^ 52 + m.toNat := by
  have he := e.isLt
  have hm := m.isLt
  simp only [packComponents, BitVec.toNat_append]
  rw [← Nat.shiftLeft_add_eq_or_of_lt (by simpa using hm),
    ← Nat.shiftLeft_add_eq_or_of_lt (by simpa using he)]
  simp only [Nat.shiftLeft_eq]
  omega

theorem toNat_toBitVec_neg (s : Sign) : (-s).toBitVec.toNat = 1 - s.toBitVec.toNat := by
  cases s <;> rfl

/-- The number that sign, exponent field and fraction stand for. -/
def ofParts (s : Sign) (e : BitVec 11) (m : BitVec 52) : UnpackedFloat :=
  if e = -1#11 then (if m = 0#52 then .infinity s else .notANumber)
  else if e = 0#11 then
    if h : m = 0#52 then .zero s
    else .finite s m.toNat (-1074) (by simpa [BitVec.toNat_pos, BitVec.pos_iff_ne_zero])
  else .finite s (2 ^ 52 + m.toNat) (e.toNat - 1075) (by omega)

theorem unpack_eq_ofParts (b : BitVec 64) :
    UnpackedFloat.unpack Format.binary64 b =
      ofParts (Sign.ofBitVec (@unpackSign Format.binary64 b)) (@unpackExponent Format.binary64 b)
        (@unpackMantissa Format.binary64 b) := by
  unfold UnpackedFloat.unpack ofParts
  have hm := (@unpackMantissa Format.binary64 b).isLt
  have hcat : (1#1 ++ @unpackMantissa Format.binary64 b).toNat =
      2 ^ 52 + (@unpackMantissa Format.binary64 b).toNat := by
    rw [BitVec.toNat_append, ← Nat.shiftLeft_add_eq_or_of_lt (by simpa using hm)]
    simp [Nat.shiftLeft_eq]
  simp only [Format.exponentBias, hcat]
  split
  · rfl
  · split
    · split
      · rfl
      · rename_i he _
        simp [he]
    · rfl

theorem neg_ofParts (s : Sign) (e : BitVec 11) (m : BitVec 52) :
    (ofParts s e m).neg = ofParts (-s) e m := by
  unfold ofParts
  split
  · split <;> rfl
  · split
    · split <;> rfl
    · rfl

theorem pack_ofParts (s : Sign) {e : BitVec 11} {m : BitVec 52} (h : e ≠ -1#11 ∨ m = 0#52) :
    UnpackedFloat.pack Format.binary64 (ofParts s e m) = packComponents Format.binary64 s e m := by
  have he := e.isLt
  have hm := m.isLt
  unfold ofParts
  split
  · rename_i he1
    rw [if_pos (h.resolve_left (fun hne => hne he1)), h.resolve_left (fun hne => hne he1), he1]
    rfl
  · rename_i he1
    have he2 : e.toNat ≠ 2047 := fun h' => he1 (BitVec.eq_of_toNat_eq h')
    split
    · rename_i he0
      split
      · rename_i hm0
        rw [he0, hm0]
        rfl
      · rename_i hm0
        have hm1 : m.toNat ≠ 0 := fun h' => hm0 (BitVec.eq_of_toNat_eq h')
        have hlog := (Nat.log2_lt hm1).2 hm
        have hn : ¬ m.toNat.log2 + 1 = 53 := by omega
        simp [UnpackedFloat.pack, Format.exponentBias, Format.mantissaBits, he0, hn]
    · rename_i he0
      have he3 : e.toNat ≠ 0 := fun h' => he0 (BitVec.eq_of_toNat_eq h')
      have hlog : (4503599627370496 + m.toNat).log2 = 52 := by
        rw [Nat.log2_eq_iff (by omega)]
        omega
      have hb : ((e.toNat : Int) - 1075 + 1023 + 52).toNat = e.toNat := by omega
      have hn : ¬ 2048 ≤ e.toNat + 1 := by omega
      simp [UnpackedFloat.pack, Format.exponentBias, Format.mantissaBits, hb, hn, hlog]
      congr 1
      apply BitVec.eq_of_toNat_eq
      rw [BitVec.toNat_ofNat]
      omega

/-! ## Reading and writing bits -/

theorem eq_of_toBits {x y : Float} (h : x.toBits.toNat = y.toBits.toNat) : x = y :=
  Float.toBits_inj.mp (UInt64.toNat_inj.mp h)

theorem unpackExponent_ne {b : BitVec 64} (h : b.toNat / 2 ^ 52 % 2 ^ 11 ≠ 2047) :
    @unpackExponent Format.binary64 b ≠ -1#11 := by
  intro he
  have := congrArg BitVec.toNat he
  rw [toNat_unpackExponent] at this
  exact h this

/-- Negation changes the sign bit. -/
theorem toNat_toBits_neg {x : Float} (h : x.toBits.toNat / 2 ^ 52 % 2 ^ 11 ≠ 2047) :
    (-x).toBits.toNat =
      if 2 ^ 63 ≤ x.toBits.toNat then x.toBits.toNat - 2 ^ 63 else x.toBits.toNat + 2 ^ 63 := by
  have hneg : (-x).toBits.toNat = (UnpackedFloat.pack Format.binary64
      (UnpackedFloat.unpack Format.binary64 x.toBits.toBitVec).neg).toNat := rfl
  have hlt := x.toBits.toNat_lt
  rw [hneg, unpack_eq_ofParts, neg_ofParts, pack_ofParts _ (.inl (unpackExponent_ne h)),
    toNat_packComponents, toNat_toBitVec_neg, Sign.toBitVec_ofBitVec, toNat_unpackSign, toNat_unpackExponent,
    toNat_unpackMantissa, UInt64.toNat_toBitVec]
  split <;> omega

theorem finite_lt_zero (s t : Sign) (m : Nat) (e : Int) (hm : 0 < m) :
    (UnpackedFloat.finite s m e hm).lt (.zero t) = true ↔ s = .negative := by
  cases s <;> simp [UnpackedFloat.lt, UnpackedFloat.compare]

theorem ofBitVec_eq_negative_iff (v : BitVec 1) : Sign.ofBitVec v = .negative ↔ v.toNat = 1 := by
  unfold Sign.ofBitVec
  have := v.isLt
  split
  · rename_i h
    simp [h]
  · rename_i h
    have hv : v.toNat ≠ 0 := fun h' => h (BitVec.eq_of_toNat_eq h')
    simp only [true_iff]
    omega

/-- What is below zero has the sign bit and is not the negative zero. -/
theorem lt_zero_iff_bits {x : Float} (h : x.toBits.toNat / 2 ^ 52 % 2 ^ 11 ≠ 2047) :
    x < 0 ↔ 2 ^ 63 < x.toBits.toNat := by
  have hzero : (0 : Float).toModel.unpack = .zero .positive := rfl
  have hlt : x < 0 ↔ (x.toModel.unpack.lt (0 : Float).toModel.unpack) = true :=
    decide_eq_true_iff
  have hx : x.toModel.unpack = UnpackedFloat.unpack Format.binary64 x.toBits.toBitVec := rfl
  have hs := toNat_unpackSign x.toBits.toBitVec
  have he := toNat_unpackExponent x.toBits.toBitVec
  have hm := toNat_unpackMantissa x.toBits.toBitVec
  have hsize := x.toBits.toNat_lt
  rw [UInt64.toNat_toBitVec] at hs he hm
  rw [hlt, hzero, hx, unpack_eq_ofParts]
  unfold ofParts
  rw [if_neg (unpackExponent_ne h)]
  split
  · rename_i he0
    have he1 : x.toBits.toNat / 2 ^ 52 % 2 ^ 11 = 0 := by rw [← he, he0]; rfl
    split
    · rename_i hm0
      have hm1 : x.toBits.toNat % 2 ^ 52 = 0 := by rw [← hm, hm0]; rfl
      refine ⟨fun h' => by simp [UnpackedFloat.lt, UnpackedFloat.compare] at h', fun h' => ?_⟩
      omega
    · rename_i hm0
      have hm1 : (@unpackMantissa Format.binary64 x.toBits.toBitVec).toNat ≠ 0 :=
        fun h' => hm0 (BitVec.eq_of_toNat_eq h')
      rw [finite_lt_zero, ofBitVec_eq_negative_iff]
      omega
  · rename_i he0
    have he1 : (@unpackExponent Format.binary64 x.toBits.toBitVec).toNat ≠ 0 :=
      fun h' => he0 (BitVec.eq_of_toNat_eq h')
    rw [finite_lt_zero, ofBitVec_eq_negative_iff]
    omega

/-! ## The exact value -/

namespace Dyadic

/-- The form in which the exact value of a machine number is given. -/
structure Canonical (d : Dyadic) : Prop where
  mantissa_lt : d.mantissa < 2 ^ 53
  exponent_ge : -1074 ≤ d.exponent
  exponent_le : d.exponent ≤ 971
  normal : 2 ^ 52 ≤ d.mantissa ∨ d.exponent = -1074

/-- The bits of a machine number with this exact value. -/
def bits (d : Dyadic) : Nat :=
  (if d.negative then 2 ^ 63 else 0) + (d.exponent + 1074).toNat * 2 ^ 52 + d.mantissa

/-- The value with the other sign. -/
def opposite (d : Dyadic) : Dyadic := { d with negative := !d.negative }

theorem ofFloat?_eq {x : Float} {n : Nat} (hn : x.toBits.toNat = n) :
    ofFloat? x =
      if n / 2 ^ 52 % 2 ^ 11 = 2047 then none
      else if n / 2 ^ 52 % 2 ^ 11 = 0 then some ⟨2 ^ 63 ≤ n, n % 2 ^ 52, -1074⟩
      else some ⟨2 ^ 63 ≤ n, 2 ^ 52 + n % 2 ^ 52, (n / 2 ^ 52 % 2 ^ 11 : Nat) - 1075⟩ := by
  subst hn
  rfl

theorem ofFloat?_spec {x : Float} {d : Dyadic} (h : ofFloat? x = some d) :
    d.Canonical ∧ x.toBits.toNat = d.bits ∧ x.toBits.toNat / 2 ^ 52 % 2 ^ 11 ≠ 2047 := by
  have hsize := x.toBits.toNat_lt
  rw [ofFloat?_eq rfl] at h
  split at h
  · cases h
  · rename_i h1
    split at h
    · rename_i h0
      cases h
      refine ⟨⟨?_, ?_, ?_, ?_⟩, ?_, h1⟩
      · simp only; omega
      · simp
      · simp
      · simp
      · simp only [bits, decide_eq_true_eq]
        split <;> omega
    · rename_i h0
      cases h
      refine ⟨⟨?_, ?_, ?_, ?_⟩, ?_, h1⟩
      · simp only; omega
      · simp only; omega
      · simp only; omega
      · simp
      · simp only [bits, decide_eq_true_eq]
        split <;> omega

theorem eq_of_ofFloat? {x y : Float} {d : Dyadic} (hx : ofFloat? x = some d) (hy : ofFloat? y = some d) :
    x = y := by
  apply eq_of_toBits
  rw [(ofFloat?_spec hx).2.1, (ofFloat?_spec hy).2.1]

theorem Canonical.sign_bit {d : Dyadic} (h : d.Canonical) : decide (2 ^ 63 ≤ d.bits) = d.negative := by
  obtain ⟨h1, h2, h3, h4⟩ := h
  unfold bits
  cases d.negative <;> simp <;> omega

theorem Canonical.exponent_field {d : Dyadic} (h : d.Canonical) :
    d.bits / 2 ^ 52 % 2 ^ 11 = (d.exponent + 1074).toNat + d.mantissa / 2 ^ 52 := by
  obtain ⟨h1, h2, h3, h4⟩ := h
  unfold bits
  split <;> omega

theorem Canonical.fraction {d : Dyadic} (h : d.Canonical) : d.bits % 2 ^ 52 = d.mantissa % 2 ^ 52 := by
  obtain ⟨h1, h2, h3, h4⟩ := h
  unfold bits
  split <;> omega

/-- A machine number is known by its bits. -/
theorem ofFloat?_of_bits {x : Float} {d : Dyadic} (hc : d.Canonical) (hb : x.toBits.toNat = d.bits) :
    ofFloat? x = some d := by
  rw [ofFloat?_eq hb, hc.sign_bit, hc.exponent_field, hc.fraction]
  obtain ⟨s, m, e⟩ := d
  obtain ⟨h1, h2, h3, h4⟩ := hc
  simp only at *
  rw [if_neg (by omega)]
  split
  · rename_i h0
    have hm : m % 2 ^ 52 = m := by omega
    have he : e = -1074 := by omega
    rw [hm, he]
  · rename_i h0
    have hm : 2 ^ 52 + m % 2 ^ 52 = m := by omega
    have he : (((e + 1074).toNat + m / 2 ^ 52 : Nat) : Int) - 1075 = e := by omega
    rw [hm, he]

theorem ofFloat?_neg {x : Float} {d : Dyadic} (h : ofFloat? x = some d) :
    ofFloat? (-x) = some d.opposite := by
  obtain ⟨hc, hb, hf⟩ := ofFloat?_spec h
  have hs : 2 ^ 63 ≤ d.bits ↔ d.negative = true := by
    rw [← hc.sign_bit, decide_eq_true_eq]
  refine ofFloat?_of_bits ⟨hc.1, hc.2, hc.3, hc.4⟩ ?_
  rw [toNat_toBits_neg hf, hb]
  by_cases hn : d.negative = true
  · rw [if_pos (hs.2 hn)]
    simp only [bits, opposite, hn, Bool.not_true, Bool.false_eq_true, if_true, if_false]
    omega
  · rw [if_neg (mt hs.1 hn)]
    simp only [bits, opposite, hn, Bool.not_false, Bool.false_eq_true, if_true, if_false]
    omega

theorem neg_neg_eq {x : Float} {d : Dyadic} (h : ofFloat? x = some d) : - -x = x := by
  have h2 := ofFloat?_neg (ofFloat?_neg h)
  refine eq_of_ofFloat? h2 ?_
  rw [h]
  simp [opposite]

theorem lt_zero_iff {x : Float} {d : Dyadic} (h : ofFloat? x = some d) :
    x < 0 ↔ d.negative = true ∧ d.mantissa ≠ 0 := by
  obtain ⟨hc, hb, hf⟩ := ofFloat?_spec h
  obtain ⟨h1, h2, h3, h4⟩ := hc
  rw [lt_zero_iff_bits hf, hb]
  unfold bits
  split <;> rename_i hs <;> simp only [hs] <;> simp <;> omega

end Dyadic

namespace Num

/-! ## The two zeros -/

theorem ofFloat?_zero : Dyadic.ofFloat? 0.0 = some ⟨false, 0, -1074⟩ := by decide

theorem ofFloat?_negZero : Dyadic.ofFloat? (-0.0) = some ⟨true, 0, -1074⟩ := by decide

/-- The mantissa zero has the least exponent. -/
theorem canonical_zero {d : Dyadic} (hc : d.Canonical) (hm : d.mantissa = 0) : d = ⟨d.negative, 0, -1074⟩ := by
  obtain ⟨s, m, e⟩ := d
  have := hc.normal
  simp only [Dyadic.mk.injEq, true_and] at *
  exact ⟨hm, this.resolve_left (by omega)⟩

end Num

end ExprCalculus
