import ExprCalculus.Evaluation.Basic
import ExprCalculus.Value.Real

/-!
# Real arithmetic has a value everywhere

A quotient by zero, a remainder by zero, zero to a negative power, a power out of range and a power that is complex are
refused by machine numbers.  Real arithmetic never comes to a refusal, whatever machine numbers it is given: the
infinities and what is not a number are among them.

* `realQuotient_ok`, `realRemainder_ok`, `roundedPower_real` — the guards leave no refusal over.
* `combine_ok`, `applyFunction_ok`, `rootOf_ok` — what evaluation does with numbers gives numbers.
-/

namespace ExprCalculus

open Float.Model

namespace Binary64

/-! ## Machine numbers -/

theorem isFinite_of_not {x : Float} (hnan : x.isNaN = false) (hinf : x.isInf = false) : x.isFinite = true := by
  have hn : x.toModel.unpack.isNaN = false := hnan
  have hi : x.toModel.unpack.isInf = false := hinf
  have hf : x.isFinite = x.toModel.unpack.isFinite := rfl
  rw [hf]
  cases hu : x.toModel.unpack with
  | notANumber =>
    rw [hu] at hn
    cases hn
  | infinity s =>
    rw [hu] at hi
    cases hi
  | zero s => rfl
  | finite s m e hm => rfl

/-! ## Quotients and remainders -/

theorem realQuotient_ok (a b : Float) : ∃ q, realQuotient a b = .ok q := by
  unfold realQuotient
  split
  · split
    · exact ⟨_, rfl⟩
    · exact ⟨_, rfl⟩
  · rename_i hb
    exact ⟨a / b, if_neg hb⟩

theorem realRemainder_ok (a b : Float) : ∃ r, realRemainder a b = .ok r := by
  unfold realRemainder
  split
  · exact ⟨_, rfl⟩
  · rename_i h
    have hb : ¬(b == 0) = true := fun hb => h (by rw [hb, Bool.true_or])
    exact ⟨modulo a b, if_neg hb⟩

/-! ## Powers -/

/-- A power is complex only if the base is negative and the exponent finite but no integer. -/
theorem of_pow_complex {base exponent : Float} {large : Bool} (h : pow base exponent = .complex large) :
    base < 0 ∧ exponent.isFinite ∧ integer? exponent = none := by
  unfold pow at h
  split at h
  · cases h
  split at h
  · cases h
  split at h
  · cases h
  rename_i hnan
  split at h
  · cases h
  rename_i hinf
  split at h
  · cases h
  split at h
  · split at h <;> cases h
  unfold finitePower at h
  simp only at h
  split at h
  · rename_i hcomplex
    exact ⟨hcomplex.1, isFinite_of_not (by simpa using hnan) (by simpa using hinf), hcomplex.2⟩
  · by_cases hsize : (if size base == 1 then 1 else Float.pow (size base) exponent).isInf = true
    · rw [if_pos hsize] at h
      cases h
    · rw [if_neg hsize] at h
      cases h

theorem roundedPower_real (odd : Bool) (base exponent : Float) :
    ∃ x, roundedPower odd base exponent = .real x := by
  unfold roundedPower
  split
  · exact ⟨_, rfl⟩
  · rename_i hguard
    cases h : pow base exponent with
    | real x => exact ⟨x, rfl⟩
    | infinite => exact ⟨infinity, rfl⟩
    | overflow => exact ⟨_, rfl⟩
    | complex large => exact absurd (of_pow_complex h) hguard

end Binary64

/-! ## Values -/

/-- An operation on numbers gives a number. -/
theorem combine_ok (op : BinOp) (x y : Float) :
    ∃ z, (Value.real x).combine op (.real y) = .ok (.real z) := by
  have scalar : ∃ z, Scalar.combine op x y = .ok z := by
    cases op with
    | plus | minus | times => exact ⟨_, rfl⟩
    | divide => exact Binary64.realQuotient_ok x y
    | modulo => exact Binary64.realRemainder_ok x y
    | power =>
      obtain ⟨z, hz⟩ := Binary64.roundedPower_real (Binary64.isOdd y) x y
      exact ⟨z, congrArg Binary64.Power.result hz⟩
  obtain ⟨z, hz⟩ := scalar
  exact ⟨z, congrArg (Except.map Value.real) hz⟩

theorem applyFunction_ok (fn : Fn) (x : Float) : applyFunction fn (.real x) = .ok (.real (Binary64.function fn x)) :=
  rfl

theorem ofNum_of_toFloat? {v : Num} {x : Float} (h : v.toFloat? = some x) :
    (Scalar.ofNum v : Except (Fault Float) Float) = .ok x := by
  have h : (Scalar.ofNum? v : Option Float) = some x := h
  simp only [Scalar.ofNum, h]

theorem ofNum_of_toFloat?_none {v : Num} (h : v.toFloat? = none) :
    (Scalar.ofNum v : Except (Fault Float) Float) = .error .tooLarge := by
  have h : (Scalar.ofNum? v : Option Float) = none := h
  simp only [Scalar.ofNum, h]

/-- A root of a number is a number, its index being in range. -/
theorem rootOf_ok {n : Nat} {i : Float} (hn : (Num.int n).toFloat? = some i) (x : Float) :
    ∃ y, rootOf n (.real x) = .ok (.real y) := by
  obtain ⟨one, hone⟩ : ∃ one, (Scalar.ofNum (.int 1) : Except (Fault Float) Float) = .ok one := ⟨_, rfl⟩
  obtain ⟨exponent, hexponent⟩ := Binary64.realQuotient_ok one i
  have hexponent : Scalar.divide one i = .ok exponent := hexponent
  obtain ⟨y, hy⟩ := combine_ok .power x exponent
  exact ⟨y, by simp only [rootOf, hone, ofNum_of_toFloat? hn, hexponent, hy]⟩

end ExprCalculus
