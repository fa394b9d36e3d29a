import ExprCalculus.Number.Rounding
import ExprCalculus.Proofs.Number.Interchange

/-!
# Integers among machine numbers

A machine number that is an integer has the integer for its exact value.  So the size of the integer is in range, and
the machine number for it is an integer again.

* `Dyadic.value_of_integer?` - the integer that is read off is the value.
* `Binary64.size_of_integer?` - the machine number for its size.
-/

namespace ExprCalculus

namespace Dyadic

variable {d : Dyadic} {n : Int}

/-- Where a quotient is the same rounded down and up, it has no remainder. -/
theorem ediv_exact {s k : Int} (hk : 0 < k) (h : s / k = -(-s / k)) : s = s / k * k := by
  have hdown := Int.ediv_mul_le s hk.ne'
  have hup := Int.ediv_mul_le (-s) hk.ne'
  rw [← neg_eq_iff_eq_neg.2 h, Int.neg_mul] at hup
  omega

theorem value_of_floor_eq_ceil (h : d.floor = d.ceil) : d.value = d.floor := by
  unfold value
  by_cases he : 0 ≤ d.exponent
  · rw [floor, if_pos he, twoPow, Nat.pow_eq]
    push_cast
    rw [← zpow_natCast, Int.toNat_of_nonneg he]
  · obtain ⟨k, hk⟩ : ∃ k : Nat, d.exponent = -k := ⟨(-d.exponent).toNat, by omega⟩
    have hpos : 0 < ((2 ^ k : Nat) : Int) := by exact_mod_cast Nat.two_pow_pos k
    have hscale : twoPow (-d.exponent).toNat = 2 ^ k := by rw [hk, Int.neg_neg, Int.toNat_natCast, twoPow, Nat.pow_eq]
    have hopposite : signed { d with negative := !d.negative } = -d.signed := by
      cases hd : d.negative <;> simp [signed, hd]
    have hfloor : d.floor = d.signed / (2 ^ k : Nat) := by
      rw [floor, if_neg he, hscale, Int.fdiv_eq_ediv_of_nonneg _ hpos.le]
    have hceil : d.ceil = -(-d.signed / (2 ^ k : Nat)) := by
      rw [ceil, floor, if_neg he, hscale, Int.fdiv_eq_ediv_of_nonneg _ hpos.le, hopposite]
    have hexact : (d.signed : ℚ) = (d.floor : ℚ) * (2 ^ k : Nat) := by
      rw [hfloor]
      exact_mod_cast ediv_exact hpos (by rw [← hfloor, h, hceil])
    rw [hexact, hk, zpow_neg, zpow_natCast, Nat.cast_pow, Nat.cast_ofNat,
      mul_inv_cancel_right₀ (pow_ne_zero k two_ne_zero)]

theorem value_of_integer? (h : d.integer? = some n) : d.value = n := by
  unfold integer? at h
  split at h
  · rename_i hfloor
    rw [value_of_floor_eq_ceil hfloor, Option.some.inj h]
  · cases h

theorem integer?_opposite (h : d.integer? = some n) : d.opposite.integer? = some (-n) := by
  have htwice : { d.opposite with negative := !d.opposite.negative } = d := by simp [opposite]
  have hceil : d.opposite.ceil = -d.floor := by rw [ceil, htwice]
  have hfloor : d.opposite.floor = -d.ceil := by rw [ceil, Int.neg_neg]; rfl
  unfold integer? at h ⊢
  split at h
  · rename_i hsame
    rw [hceil, hfloor, hsame, if_pos rfl, ← Option.some.inj h, hsame]
  · cases h

end Dyadic

namespace Binary64

/-- The size of an integer that is a machine number is one too. -/
theorem size_of_integer? {x : Float} {n : Int} (h : integer? x = some n) :
    ∃ y, intToFloat? (n.natAbs : Int) = some y ∧ integer? y = some (n.natAbs : Int) := by
  obtain ⟨d, hd, hn⟩ := Option.bind_eq_some_iff.1 h
  -- the number itself or its opposite
  obtain ⟨y, c, hc, hsign, m, hm, hsize⟩ : ∃ y c, Dyadic.ofFloat? y = some c ∧ c.negative = false ∧
      ∃ m : Int, c.integer? = some m ∧ m.natAbs = n.natAbs := by
    by_cases hnegative : d.negative = true
    · exact ⟨-x, d.opposite, Dyadic.ofFloat?_neg hd, by simp [Dyadic.opposite, hnegative], -n,
        Dyadic.integer?_opposite hn, Int.natAbs_neg n⟩
    · exact ⟨x, d, hd, by simpa using hnegative, n, hn, rfl⟩
  have hvalue := Dyadic.value_of_integer? hm
  have hnonneg : 0 ≤ m := by
    have hq : (0 : ℚ) ≤ m := by
      rw [← hvalue, Dyadic.value_of_not_negative hsign]
      positivity
    exact_mod_cast hq
  have hcast : ((n.natAbs : Nat) : Int) = m := by rw [← hsize, Int.natAbs_of_nonneg hnonneg]
  have hnearest : Dyadic.nearest n.natAbs 1 = y := by
    refine Dyadic.nearest_of_value hc hsign one_ne_zero ?_
    rw [hvalue, ← hcast]
    simp
  refine ⟨y, ?_, ?_⟩
  · have hsize : ((n.natAbs : Nat) : Int).natAbs = n.natAbs := Int.natAbs_natCast _
    simp only [intToFloat?, hsize, hnearest, isInf_of_ofFloat? hc, Bool.false_eq_true, if_false,
      if_neg (Int.natCast_nonneg n.natAbs).not_gt]
  · rw [integer?, hc, hcast]
    exact hm

end Binary64

end ExprCalculus
