import ExprCalculus.Proofs.Number.Exact

/-!
# Signs of literals

Which literals are below zero, for all machine numbers: the infinities are not left out.  What is not a number
is below nothing and equal to nothing.

* `Num.isNegative_negate` — the opposite of what is below zero is not.
* `Num.isNegative_eq_of_sameValue` — literals of one value have one sign.
* `Num.sameValue_self` — a literal has its own value, unless it is not a number.
-/

namespace ExprCalculus

open Float.Model Float.Model.UnpackedFloat

/-! ## Machine numbers without an exact value -/

theorem lt_zero_iff_unpack (x : Float) : x < 0 ↔ x.toModel.unpack.lt (.zero .positive) = true :=
  decide_eq_true_iff

theorem unpack_of_not_finite {x : Float} (h : Dyadic.ofFloat? x = none) :
    x.toModel.unpack = .notANumber ∨ ∃ s, x.toModel.unpack = .infinity s := by
  have hx : x.toModel.unpack = UnpackedFloat.unpack Format.binary64 x.toBits.toBitVec := rfl
  have hfield : x.toBits.toNat / 2 ^ 52 % 2 ^ 11 = 2047 := by
    rw [Dyadic.ofFloat?_eq rfl] at h
    split at h
    · assumption
    · split at h <;> cases h
  have hexp : @unpackExponent Format.binary64 x.toBits.toBitVec = -1#11 := by
    apply BitVec.eq_of_toNat_eq
    rw [toNat_unpackExponent, UInt64.toNat_toBitVec, hfield]
    rfl
  rw [hx, unpack_eq_ofParts, ofParts, if_pos hexp]
  split
  · exact .inr ⟨_, rfl⟩
  · exact .inl rfl

/-- What is below zero and has no exact value is the negative infinity. -/
theorem unpack_of_negative {x : Float} (h : Dyadic.ofFloat? x = none) (hx : x < 0) :
    x.toModel.unpack = .infinity .negative := by
  rw [lt_zero_iff_unpack] at hx
  obtain hu | ⟨s, hu⟩ := unpack_of_not_finite h
  · rw [hu] at hx
    cases hx
  · cases s with
    | negative => exact hu
    | positive =>
      rw [hu] at hx
      cases hx

theorem unpack_neg_of_negative {x : Float} (h : Dyadic.ofFloat? x = none) (hx : x < 0) :
    (-x).toModel.unpack = .infinity .positive := by
  have hneg : (-x).toModel.unpack = (Float.Model.pack x.toModel.unpack.neg).unpack := rfl
  rw [hneg, unpack_of_negative h hx]
  rfl

namespace Num

/-- Whether the literal is not a number. -/
def isNaN : Num → Bool
  | .int _ => false
  | .float x => x.isNaN

/-! ## The sign of a value -/

theorem isNegative_iff {n : Num} {q : ℚ} (h : n.rational? = some q) : n.isNegative = true ↔ q < 0 := by
  cases n with
  | int k =>
    rw [rational?_int, Option.some_inj] at h
    subst h
    simp [isNegative]
  | float x =>
    obtain ⟨d, hd, rfl⟩ := Option.map_eq_some_iff.mp h
    have hpow : (0 : ℚ) < 2 ^ d.exponent := zpow_pos two_pos _
    have hsign : d.value < 0 ↔ (d.signed : ℚ) < 0 := by
      rw [Dyadic.value, mul_neg_iff]
      constructor
      · rintro (⟨-, h⟩ | ⟨h, -⟩)
        · exact absurd h hpow.not_gt
        · exact h
      · exact fun h => .inr ⟨h, hpow⟩
    rw [isNegative, decide_eq_true_eq, Dyadic.lt_zero_iff hd, hsign, Dyadic.signed]
    split <;> rename_i hs <;> simp [hs, Nat.pos_iff_ne_zero]

/-- Either a literal has an exact value or it is a machine number that has none. -/
theorem rational?_cases (n : Num) :
    (∃ q, n.rational? = some q) ∨ ∃ x, n = .float x ∧ Dyadic.ofFloat? x = none := by
  cases n with
  | int k => exact .inl ⟨k, rational?_int k⟩
  | float x =>
    cases h : Dyadic.ofFloat? x with
    | some d => exact .inl ⟨d.value, by simp [rational?, exactValue?, h]⟩
    | none => exact .inr ⟨x, rfl, h⟩

theorem isNegative_negate {n : Num} (h : n.isNegative = true) : n.negate.isNegative = false := by
  obtain ⟨q, hq⟩ | ⟨x, rfl, hx⟩ := n.rational?_cases
  · rw [isNegative_iff hq] at h
    rw [← Bool.not_eq_true, isNegative_iff (rational?_negate hq)]
    linarith
  · rw [isNegative, decide_eq_true_eq] at h
    rw [negate, isNegative, decide_eq_false_iff_not, lt_zero_iff_unpack, unpack_neg_of_negative hx h]
    decide

/-- A literal with an exact value is a number. -/
theorem isNaN_of_rational? {n : Num} {q : ℚ} (h : n.rational? = some q) : n.isNaN = false := by
  cases n with
  | int k => rfl
  | float x =>
    obtain ⟨d, hd, -⟩ := Option.map_eq_some_iff.mp h
    have hx : x.isNaN = (UnpackedFloat.unpack Format.binary64 x.toBits.toBitVec).isNaN := rfl
    rw [isNaN, hx, unpack_eq_ofParts, ofParts, if_neg (unpackExponent_ne (Dyadic.ofFloat?_spec hd).2.2)]
    split
    · split <;> rfl
    · rfl

theorem isNaN_negate {n : Num} (h : n.isNegative = true) : n.negate.isNaN = false := by
  obtain ⟨q, hq⟩ | ⟨x, rfl, hx⟩ := n.rational?_cases
  · exact isNaN_of_rational? (rational?_negate hq)
  · rw [isNegative, decide_eq_true_eq] at h
    have hu : (-x).isNaN = (-x).toModel.unpack.isNaN := rfl
    rw [negate, isNaN, hu, unpack_neg_of_negative hx h]
    rfl

/-! ## Literals of one value -/

theorem sameValue_of_rational? {a b : Num} {p q : ℚ} (ha : a.rational? = some p) (hb : b.rational? = some q) :
    a.sameValue b = true ↔ p = q := by
  obtain ⟨d, hd, rfl⟩ := Option.map_eq_some_iff.mp ha
  obtain ⟨e, he, rfl⟩ := Option.map_eq_some_iff.mp hb
  simp only [sameValue, hd, he]
  exact Dyadic.sameValue_iff d e

/-- Machine numbers that are equal and have no exact value are one infinity. -/
theorem unpack_eq_of_beq {x y : Float} (hx : Dyadic.ofFloat? x = none) (hy : Dyadic.ofFloat? y = none)
    (h : (x == y) = true) : x.toModel.unpack = y.toModel.unpack := by
  have hb : x.toModel.unpack.beq y.toModel.unpack = true := h
  obtain hu | ⟨s, hu⟩ := unpack_of_not_finite hx
  · rw [hu] at hb
    cases hb
  · obtain hv | ⟨r, hv⟩ := unpack_of_not_finite hy
    · rw [hu, hv] at hb
      cases hb
    · rw [hu, hv] at hb ⊢
      cases s <;> cases r <;> first | rfl | cases hb

theorem isNegative_eq_of_sameValue {a b : Num} (h : a.sameValue b = true) : a.isNegative = b.isNegative := by
  obtain ⟨p, hp⟩ | ⟨x, rfl, hx⟩ := a.rational?_cases
  · obtain ⟨q, hq⟩ | ⟨y, rfl, hy⟩ := b.rational?_cases
    · rw [sameValue_of_rational? hp hq] at h
      rw [Bool.eq_iff_iff, isNegative_iff hp, isNegative_iff hq, h]
    · obtain ⟨d, hd, -⟩ := Option.map_eq_some_iff.mp hp
      have hy' : (Num.float y).exactValue? = none := hy
      simp [sameValue, hd, hy'] at h
  · obtain ⟨q, hq⟩ | ⟨y, rfl, hy⟩ := b.rational?_cases
    · obtain ⟨d, hd, -⟩ := Option.map_eq_some_iff.mp hq
      have hx' : (Num.float x).exactValue? = none := hx
      simp [sameValue, hd, hx'] at h
    · simp only [sameValue, exactValue?, hx, hy] at h
      rw [isNegative, isNegative, decide_eq_decide, lt_zero_iff_unpack, lt_zero_iff_unpack,
        unpack_eq_of_beq hx hy h]

theorem isNegative_eq_of_alike {a b : Num} (h : a.alike b = true) : a.isNegative = b.isNegative := by
  rw [alike, Bool.or_eq_true, decide_eq_true_eq] at h
  obtain rfl | h := h
  · rfl
  · exact isNegative_eq_of_sameValue h

theorem sameValue_self {n : Num} (h : n.isNaN = false) : n.sameValue n = true := by
  obtain ⟨q, hq⟩ | ⟨x, rfl, hx⟩ := n.rational?_cases
  · exact (sameValue_of_rational? hq hq).mpr rfl
  · have hn : x.toModel.unpack.isNaN = false := h
    have hself : (x == x) = x.toModel.unpack.beq x.toModel.unpack := rfl
    simp only [sameValue, exactValue?, hx, hself]
    obtain hu | ⟨s, hu⟩ := unpack_of_not_finite hx
    · rw [hu] at hn
      cases hn
    · rw [hu]
      cases s <;> rfl

theorem alike_self (n : Num) : n.alike n = true := by simp [alike]

end Num

end ExprCalculus
