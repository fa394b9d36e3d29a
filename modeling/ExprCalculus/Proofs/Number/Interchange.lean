import ExprCalculus.Proofs.Number.Nearest
import ExprCalculus.Proofs.Number.Sign

/-!
# Literals that are one machine number

Literals that have the same value, be they integers or machine numbers, are the same number to calculate with, but for
the negative zero: it equals the positive one and the integer zero, and behaves otherwise.

* `nearest_of_value` — a machine number is nearest to its own value.
* `Num.toFloat?_of_rational?` — the machine number of a literal, from the value of the literal.
* `Num.toFloat?_eq_of_interchangeable` — literals of one value.
-/

namespace ExprCalculus

open Float.Model Float.Model.UnpackedFloat

namespace Dyadic

/-! ## Machine numbers as the nearest ones to their values -/

theorem roundsTo_self (m : Nat) (e : Int) : RoundsTo m e (m * 2 ^ e) := by
  have hpos : (0 : ℚ) < 2 ^ (e - 2) := by positivity
  have hpow : (2 : ℚ) ^ e = 4 * 2 ^ (e - 2) := by
    rw [show e = e - 2 + (2 : Nat) by omega, two_zpow_sub_add]
    norm_num
  refine ⟨?_, ?_, fun _ => ⟨?_, ?_⟩⟩
  · rw [hpow]
    split <;> nlinarith
  · rw [hpow]
    nlinarith
  · rw [hpow]
    intro h
    nlinarith
  · rw [hpow]
    intro h
    nlinarith

theorem value_of_not_negative {d : Dyadic} (hs : d.negative = false) : d.value = d.mantissa * 2 ^ d.exponent := by
  simp [value, signed, hs]

theorem nearest_of_value {x : Float} {d : Dyadic} {num den : Nat} (h : ofFloat? x = some d)
    (hs : d.negative = false) (hd : den ≠ 0) (hvalue : (num / den : ℚ) = d.value) : nearest num den = x := by
  rw [value_of_not_negative hs] at hvalue
  have hden : (den : ℚ) ≠ 0 := by exact_mod_cast hd
  by_cases hm : d.mantissa = 0
  · have hnum : num = 0 := by
      rw [hm, Nat.cast_zero, zero_mul, div_eq_zero_iff] at hvalue
      exact_mod_cast hvalue.resolve_right hden
    rw [Num.canonical_zero (ofFloat?_spec h).1 hm, hs] at h
    rw [nearest, if_pos hnum]
    exact eq_of_ofFloat? Num.ofFloat?_zero h
  · have hnum : num ≠ 0 := by
      rintro rfl
      have hpos : (0 : ℚ) < d.mantissa * 2 ^ d.exponent :=
        mul_pos (by exact_mod_cast Nat.pos_of_ne_zero hm) (zpow_pos two_pos _)
      rw [Nat.cast_zero, zero_div] at hvalue
      exact hpos.ne hvalue
    refine nearest_of_roundsTo h hs hm hnum hd ?_
    rw [hvalue]
    exact roundsTo_self d.mantissa d.exponent

end Dyadic

/-! ## Machine numbers without an exact value -/

theorem isInf_of_ofFloat? {x : Float} {d : Dyadic} (h : Dyadic.ofFloat? x = some d) : x.isInf = false := by
  have hx : x.isInf = (UnpackedFloat.unpack Format.binary64 x.toBits.toBitVec).isInf := rfl
  rw [hx, unpack_eq_ofParts, ofParts, if_neg (unpackExponent_ne (Dyadic.ofFloat?_spec h).2.2)]
  split
  · split <;> rfl
  · rfl

/-- There is one machine number for each infinity. -/
theorem toNat_toBits_of_infinity {x : Float} {s : Sign} (h : x.toModel.unpack = .infinity s) :
    x.toBits.toNat = s.toBitVec.toNat * 2 ^ 63 + 2047 * 2 ^ 52 := by
  have hx : x.toModel.unpack = UnpackedFloat.unpack Format.binary64 x.toBits.toBitVec := rfl
  have hsize := x.toBits.toNat_lt
  rw [hx, unpack_eq_ofParts, ofParts] at h
  split at h
  · rename_i hexp
    split at h
    · rename_i hfraction
      have hexp := congrArg BitVec.toNat hexp
      have hfraction := congrArg BitVec.toNat hfraction
      have hsign := toNat_unpackSign x.toBits.toBitVec
      have hnegative := ofBitVec_eq_negative_iff (@unpackSign Format.binary64 x.toBits.toBitVec)
      rw [toNat_unpackExponent] at hexp
      rw [toNat_unpackMantissa] at hfraction
      rw [UnpackedFloat.infinity.inj h, hsign] at hnegative
      simp only [UInt64.toNat_toBitVec] at hexp hfraction hnegative
      cases s <;> simp [Sign.toBitVec] at * <;> omega
    · cases h
  · split at h
    · split at h <;> cases h
    · cases h

/-- Machine numbers that are equal and have no exact value are one. -/
theorem eq_of_beq_of_not_finite {x y : Float} (hx : Dyadic.ofFloat? x = none) (hy : Dyadic.ofFloat? y = none)
    (h : (x == y) = true) : x = y := by
  have hunpack := Num.unpack_eq_of_beq hx hy h
  have hbeq : x.toModel.unpack.beq y.toModel.unpack = true := h
  obtain hnan | ⟨s, hs⟩ := unpack_of_not_finite hx
  · rw [hnan] at hbeq
    cases hbeq
  · apply eq_of_toBits
    rw [toNat_toBits_of_infinity hs, toNat_toBits_of_infinity (hunpack.symm.trans hs)]

theorem natAbs_div_den (q : ℚ) : (q.num.natAbs / q.den : ℚ) = |q| := by
  rw [Nat.cast_natAbs, Int.cast_abs]
  nth_rewrite 3 [← Rat.num_div_den q]
  rw [abs_div, Nat.abs_cast]

namespace Num

/-- Whether two literals are the same, or have the same value and neither is the negative zero. -/
def interchangeable (a b : Num) : Bool :=
  a = b || a.sameValue b && !(a = .float (-0.0)) && !(b = .float (-0.0))

/-- The machine number of a literal is the one nearest to its value. -/
theorem toFloat?_of_rational? {v : Num} {q : ℚ} (h : v.rational? = some q) (hzero : v ≠ .float (-0.0)) :
    v.toFloat? =
      (if (Dyadic.nearest q.num.natAbs q.den).isInf then none
      else some (if q < 0 then -Dyadic.nearest q.num.natAbs q.den else Dyadic.nearest q.num.natAbs q.den)) := by
  cases v with
  | int n =>
    rw [rational?_int, Option.some_inj] at h
    subst h
    simp [toFloat?, intToFloat?]
  | float x =>
    obtain ⟨d, hd, rfl⟩ := Option.map_eq_some_iff.mp h
    have hx : Dyadic.ofFloat? x = some d := hd
    have hnegative : d.value < 0 ↔ x < 0 := by
      rw [← isNegative_iff h, isNegative, decide_eq_true_eq]
    rw [Dyadic.lt_zero_iff hx] at hnegative
    have hq := natAbs_div_den d.value
    by_cases hs : d.negative = false
    · have hnot : ¬d.value < 0 := by
        rw [hnegative, hs]
        simp
      rw [abs_of_nonneg (not_lt.1 hnot)] at hq
      rw [Dyadic.nearest_of_value hx hs d.value.den_nz hq, isInf_of_ofFloat? hx, if_neg hnot]
      rfl
    · rw [Bool.not_eq_false] at hs
      have hneg := Dyadic.ofFloat?_neg hx
      have hopposite : d.opposite.negative = false := by simp [Dyadic.opposite, hs]
      have hm : d.mantissa ≠ 0 := by
        intro hm
        rw [canonical_zero (Dyadic.ofFloat?_spec hx).1 hm, hs] at hx
        exact hzero (congrArg Num.float (Dyadic.eq_of_ofFloat? hx ofFloat?_negZero))
      have hlt : d.value < 0 := hnegative.2 ⟨hs, hm⟩
      rw [abs_of_neg hlt, ← d.value_opposite] at hq
      rw [Dyadic.nearest_of_value hneg hopposite d.value.den_nz hq, isInf_of_ofFloat? hneg, if_pos hlt,
        Dyadic.neg_neg_eq hx]
      rfl

theorem toFloat?_eq_of_interchangeable {a b : Num} (h : a.interchangeable b = true) : a.toFloat? = b.toFloat? := by
  simp only [interchangeable, Bool.or_eq_true, Bool.and_eq_true, Bool.not_eq_true', decide_eq_true_eq,
    decide_eq_false_iff_not] at h
  obtain rfl | ⟨⟨hsame, ha⟩, hb⟩ := h
  · rfl
  obtain ⟨p, hp⟩ | ⟨x, rfl, hx⟩ := a.rational?_cases
  · obtain ⟨q, hq⟩ | ⟨y, rfl, hy⟩ := b.rational?_cases
    · rw [sameValue_of_rational? hp hq] at hsame
      rw [toFloat?_of_rational? hp ha, toFloat?_of_rational? hq hb, hsame]
    · obtain ⟨d, hd, -⟩ := Option.map_eq_some_iff.mp hp
      have hy' : (Num.float y).exactValue? = none := hy
      simp [sameValue, hd, hy'] at hsame
  · obtain ⟨q, hq⟩ | ⟨y, rfl, hy⟩ := b.rational?_cases
    · obtain ⟨d, hd, -⟩ := Option.map_eq_some_iff.mp hq
      have hx' : (Num.float x).exactValue? = none := hx
      simp [sameValue, hd, hx'] at hsame
    · simp only [sameValue, exactValue?, hx, hy] at hsame
      rw [eq_of_beq_of_not_finite hx hy hsame]

end Num

end ExprCalculus
