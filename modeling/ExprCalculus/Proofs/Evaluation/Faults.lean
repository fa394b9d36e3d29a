import ExprCalculus.Proofs.Number.Integral
import ExprCalculus.Proofs.Number.RealArithmetic
import ExprCalculus.Value.Interval

/-!
# The faults of interval arithmetic

Interval arithmetic refuses bounds in the wrong order, divisors that contain zero and powers of what reaches below zero.
A power can also be out of range.  A power that is complex is never asked for where a bound is a number: the lower bound
is tested for being below zero, and what is not a number passes the test.

* `Sound` - a result, or a fault of a given kind.
* `Interval.make_sound`, `Interval.div_sound`, … - what the operations on intervals come to.
* `Interval.pow_sound` - the powers.
-/

namespace ExprCalculus

/-! ## Faults -/

namespace Fault

variable {α : Type}

/-- A fault for the values of the operands, or for zero as a divisor. -/
def IsOrdinary (f : Fault α) : Prop := f.faultClass = .value ∨ f.faultClass = .zeroDivision

/-- A fault of a power, which may be complex only where `complex` holds. -/
def OfPower (complex : Prop) (f : Fault α) : Prop :=
  f.IsOrdinary ∨ f = .outOfRange ∨ (f = .complexPower ∨ f = .complexOutOfRange) ∧ complex

theorem OfPower.imp {p q : Prop} {f : Fault α} (h : f.OfPower p) (himp : p → q) : f.OfPower q :=
  Or.imp_right (Or.imp_right (And.imp_right himp)) h

end Fault

/-- A result of arithmetic that has the property `P`, or a fault that has the property `Q`. -/
def Sound {β : Type} (Q : Fault Float → Prop) (P : β → Prop) : Except (Fault Float) β → Prop
  | .ok b => P b
  | .error f => Q f

section

variable {β γ : Type} {Q : Fault Float → Prop} {P : β → Prop} {r : Except (Fault Float) β}

theorem Sound.cases (h : Sound Q P r) : (∃ b, r = .ok b ∧ P b) ∨ ∃ f, r = .error f ∧ Q f := by
  cases r with
  | error f => exact .inr ⟨f, rfl, h⟩
  | ok b => exact .inl ⟨b, rfl, h⟩

theorem Sound.map {P' : γ → Prop} {f : β → γ} (h : Sound Q P r) (hf : ∀ b, P b → P' (f b)) :
    Sound Q P' (r.map f) := by
  cases r with
  | error e => exact h
  | ok b => exact hf b h

theorem Sound.imp {Q' : Fault Float → Prop} (h : Sound Q P r) (himp : ∀ f, Q f → Q' f) : Sound Q' P r := by
  cases r with
  | error e => exact himp e h
  | ok b => exact h

end

/-! ## Machine numbers -/

/-- Any number will do. -/
abbrev AnyNumber : Float → Prop := fun _ => True

namespace Binary64

theorem quotient_sound (a b : Float) : Sound Fault.IsOrdinary AnyNumber (quotient a b) := by
  unfold quotient
  split
  · exact .inr rfl
  · trivial

theorem checkedPower_sound (base exponent : Float) :
    Sound (Fault.OfPower (base < 0 ∧ integer? exponent = none)) AnyNumber (checkedPower base exponent) := by
  unfold checkedPower
  cases h : pow base exponent with
  | real x => trivial
  | infinite => exact .inl (.inr rfl)
  | overflow => exact .inr (.inl rfl)
  | complex large =>
    obtain ⟨hbase, _, hexponent⟩ := of_pow_complex h
    refine .inr (.inr ⟨?_, hbase, hexponent⟩)
    cases large with
    | false => exact .inl rfl
    | true => exact .inr rfl

/-- A power with the size of a machine number for its exponent is real. -/
theorem naturalPower_sound (base : Float) {x : Float} {n : Int} (hn : integer? x = some n) :
    Sound (Fault.OfPower False) AnyNumber (naturalPower base n.natAbs) := by
  obtain ⟨y, hy, hinteger⟩ := size_of_integer? hn
  simp only [naturalPower, hy]
  refine (checkedPower_sound base y).imp fun f hf => hf.imp fun hcomplex => ?_
  rw [hinteger] at hcomplex
  cases hcomplex.2

open Float.Model in
/-- A machine number is not below itself. -/
theorem not_lt_self (x : Float) : ¬x < x := by
  have irreflexive (u : UnpackedFloat) : u.lt u = false := by
    cases u with
    | notANumber => rfl
    | infinity s | zero s => cases s <;> rfl
    | finite s m e hm =>
      have hexponent : compare e e = .eq := Std.ReflCmp.compare_self
      have hmantissa : compare m m = .eq := Std.ReflCmp.compare_self
      cases s with
      | positive =>
        show ((compare e e).then (compare m m) == .lt) = false
        rw [hexponent, hmantissa]
        rfl
      | negative =>
        show (((compare e e).then (compare m m)).swap == .lt) = false
        rw [hexponent, hmantissa]
        rfl
  have h : x < x ↔ x.toModel.unpack.lt x.toModel.unpack = true := decide_eq_true_iff
  rw [h, irreflexive]
  exact Bool.false_ne_true

open Float.Model in
theorem unpacked_below_zero {v : UnpackedFloat} (h : v.lt (.zero .positive) = true) :
    v = .infinity .negative ∨ ∃ m e hm, v = .finite .negative m e hm := by
  cases v with
  | notANumber => cases h
  | zero s => cases s <;> cases h
  | infinity s =>
    cases s with
    | negative => exact .inl rfl
    | positive => cases h
  | finite s m e hm =>
    cases s with
    | negative => exact .inr ⟨m, e, hm, rfl⟩
    | positive => cases h

open Float.Model in
/-- What is neither below zero nor above a number below zero is not a number. -/
theorem isNaN_of_not_lt {x y : Float} (hy : y < 0) (hyx : ¬y < x) (hx : ¬x < 0) : x.isNaN = true := by
  have general (u v : UnpackedFloat) (hv : v.lt (.zero .positive) = true) (hvu : v.lt u ≠ true)
      (hu : u.lt (.zero .positive) ≠ true) : u.isNaN = true := by
    obtain rfl | ⟨m, e, hm, rfl⟩ := unpacked_below_zero hv
    all_goals
      cases u with
      | notANumber => rfl
      | zero s => cases s <;> exact absurd rfl hvu
      | infinity s | finite s =>
        cases s with
        | negative => exact absurd rfl hu
        | positive => exact absurd rfl hvu
  exact general x.toModel.unpack y.toModel.unpack (decide_eq_true_iff.1 hy) (fun h => hyx (decide_eq_true_iff.2 h))
    (fun h => hx (decide_eq_true_iff.2 h))

end Binary64

/-! ## Intervals -/

namespace Interval

/-- The bounds are not in the wrong order. -/
def Ordered (i : Interval Float) : Prop := ¬i.hi < i.lo

theorem point_ordered (x : Float) : (point x).Ordered := Binary64.not_lt_self x

theorem make_sound (lo hi : Float) : Sound Fault.IsOrdinary Ordered (make lo hi) := by
  unfold make
  split
  · exact .inl rfl
  · rename_i h
    exact fun hlt => h (decide_eq_true hlt)

/-- The interval between two images. -/
theorem image_sound {Q : Fault Float → Prop} (hQ : ∀ f : Fault Float, f.IsOrdinary → Q f)
    {f : Float → Except (Fault Float) Float} {x y : Float} (hx : Sound Q AnyNumber (f x))
    (hy : Sound Q AnyNumber (f y)) : Sound Q Ordered (image f x y) := by
  unfold image
  obtain ⟨lo, hlo, _⟩ | ⟨e, he, hfault⟩ := hx.cases
  · obtain ⟨hi, hhi, _⟩ | ⟨e, he, hfault⟩ := hy.cases
    · simp only [hlo, hhi]
      exact (make_sound lo hi).imp hQ
    · simp only [hlo, he]
      exact hfault
  · simp only [he]
    exact hfault

theorem div_sound (i j : Interval Float) : Sound Fault.IsOrdinary Ordered (i.div j) := by
  unfold div
  split
  · exact .inr rfl
  · have hj : Sound Fault.IsOrdinary Ordered j.reciprocal :=
      image_sound (fun _ h => h) (Binary64.quotient_sound 1 j.hi) (Binary64.quotient_sound 1 j.lo)
    obtain ⟨k, hk, _⟩ | ⟨e, he, hfault⟩ := hj.cases
    · simp only [hk]
      exact make_sound _ _
    · simp only [he]
      exact hfault

section

variable (i : Interval Float) {x : Float} {n : Int}

theorem naturalPow_sound (hn : Binary64.integer? x = some n) :
    Sound (Fault.OfPower False) Ordered (i.naturalPow n.natAbs) := by
  have hpow (y : Float) : Sound (Fault.OfPower False) AnyNumber (Scalar.naturalPower y n.natAbs) :=
    Binary64.naturalPower_sound y hn
  unfold naturalPow
  simp only
  split
  · exact image_sound (fun _ => .inl) (hpow _) (hpow _)
  split
  · exact image_sound (fun _ => .inl) (hpow _) (hpow _)
  obtain ⟨a, ha, _⟩ | ⟨e, he, hfault⟩ := (hpow i.lo).cases
  · obtain ⟨b, hb, _⟩ | ⟨e, he, hfault⟩ := (hpow i.hi).cases
    · simp only [ha, hb]
      exact (make_sound _ _).imp fun _ => .inl
    · simp only [ha, he]
      exact hfault
  · simp only [he]
    exact hfault

/-- An integer power is real. -/
theorem intPow_sound (hn : Binary64.integer? x = some n) : Sound (Fault.OfPower False) Ordered (i.intPow n) := by
  cases n with
  | ofNat n => exact naturalPow_sound i hn
  | negSucc n =>
    have h : Sound (Fault.OfPower False) Ordered (i.naturalPow (n + 1)) := naturalPow_sound i hn
    obtain ⟨p, hp, _⟩ | ⟨e, he, hfault⟩ := h.cases
    · simp only [intPow, hp]
      exact (div_sound _ _).imp fun _ => .inl
    · simp only [intPow, he]
      exact hfault

variable {i}

/-- A power that is not an integer is complex only if the test of the lower bound means nothing. -/
theorem fractionalPow_sound (hi : i.Ordered) :
    Sound (Fault.OfPower (i.lo.isNaN = true ∧ i.hi < 0)) Ordered (i.fractionalPow x) := by
  unfold fractionalPow
  simp only
  split
  · exact .inl (.inl rfl)
  rename_i htest
  have hlo : ¬i.lo < 0 := fun h => htest (decide_eq_true h)
  have hpow {y : Float} (hy : y = i.lo ∨ y = i.hi) :
      Sound (Fault.OfPower (i.lo.isNaN = true ∧ i.hi < 0)) AnyNumber (Scalar.fractionalPower y x) := by
    refine (Binary64.checkedPower_sound y x).imp fun f hf => hf.imp fun hcomplex => ?_
    obtain rfl | rfl := hy
    · exact absurd hcomplex.1 hlo
    · exact ⟨Binary64.isNaN_of_not_lt hcomplex.1 hi hlo, hcomplex.1⟩
  split
  · exact image_sound (fun _ => .inl) (hpow (.inl rfl)) (hpow (.inr rfl))
  split
  · exact .inl (.inr rfl)
  · exact image_sound (fun _ => .inl) (hpow (.inr rfl)) (hpow (.inl rfl))

/-- **A power of an interval with its bounds in order** is such an interval, or refused for its operands, or out of
range; only an interval of negative numbers whose lower bound is not a number has complex ones. -/
theorem pow_sound (hi : i.Ordered) (x : Float) :
    Sound (Fault.OfPower (i.lo.isNaN = true ∧ i.hi < 0)) Ordered (i.pow x) := by
  unfold pow
  split
  · rename_i n hn
    exact (intPow_sound i hn).imp fun f hf => hf.imp False.elim
  · exact fractionalPow_sound hi

end

end Interval

end ExprCalculus
