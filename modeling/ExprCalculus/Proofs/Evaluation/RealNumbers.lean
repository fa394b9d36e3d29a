import ExprCalculus.Proofs.Evaluation.Componentwise
import ExprCalculus.Proofs.Simplify.Reals

/-!
# Evaluation over the real numbers

The real numbers as numbers to calculate with.  Nothing is rounded, and nothing stands in for what is not defined: a
quotient by zero, a power that is not real and a function outside of its domain are refused.

* `Reals.combine_iff`, `Reals.function_iff` — operations and functions are those of the real calculus.
* `Reals.applyFunction_iff`, `Reals.rootOf_iff` — functions of values.
* `evaluateWith_binary_iff`, `evaluateWith_apply_iff`, … — what a node needs for a value, over any kind of number.
-/

namespace ExprCalculus

/-! ## Arithmetic -/

namespace Reals

/-- A value, or why there is none. -/
def orRefuse (why : Fault ℝ) : Option ℝ → Except (Fault ℝ) ℝ
  | some x => .ok x
  | none => .error why

theorem orRefuse_eq_ok_iff {why : Fault ℝ} {r : Option ℝ} {x : ℝ} : orRefuse why r = .ok x ↔ r = some x := by
  cases r <;> simp [orRefuse]

/-- A power of real numbers; zero has no negative ones, and of a negative number only the integer ones are real. -/
noncomputable def power (x y : ℝ) : Except (Fault ℝ) ℝ :=
  orRefuse (if x = 0 then .zeroToNegative else .complexPower) (calculus.pow x y)

open Classical in
noncomputable instance : Scalar ℝ where
  ofNum? v := v.rational?.map (↑)
  zero := 0
  one := 1
  less x y := x < y
  atMost x y := x ≤ y
  divide x y := orRefuse .divisionByZero (calculus.operation? .divide x y)
  power := power
  modulo x y := orRefuse .divisionByZero (calculus.operation? .modulo x y)
  function fn x := orRefuse .outOfRange (calculus.function? fn x)
  reciprocal y := orRefuse .divisionByZero (calculus.operation? .divide 1 y)
  integer? x := if x = ⌊x⌋ then some ⌊x⌋ else none
  naturalPower x n := .ok (x ^ n)
  fractionalPower := power

theorem combine_iff {op : BinOp} {x y z : ℝ} :
    Scalar.combine op x y = .ok z ↔ calculus.operation? op x y = some z := by
  cases op with
  -- always defined, so that it does not matter how they would be refused
  | plus | minus | times => exact @orRefuse_eq_ok_iff .divisionByZero (some _) z
  | divide | power | modulo => exact orRefuse_eq_ok_iff

theorem divide_iff {x y z : ℝ} : Scalar.divide x y = .ok z ↔ y ≠ 0 ∧ x / y = z := by
  refine orRefuse_eq_ok_iff.trans ?_
  rw [PartialCalculus.operation?]
  split <;> simp [*]

theorem function_iff {fn : Fn} {x y : ℝ} : Scalar.function fn x = .ok y ↔ calculus.function? fn x = some y :=
  orRefuse_eq_ok_iff

theorem ofNum_iff {v : Num} {x : ℝ} :
    (Scalar.ofNum v : Except (Fault ℝ) ℝ) = .ok x ↔ ∃ q : ℚ, v.rational? = some q ∧ (q : ℝ) = x := by
  have hof : (Scalar.ofNum? v : Option ℝ) = v.rational?.map (↑) := rfl
  rw [Scalar.ofNum, hof]
  cases v.rational? <;> simp

/-! ## Values -/

theorem applyFunction_iff {fn : Fn} {x : ℝ} {v : Value ℝ} :
    applyFunction fn (.real x) = .ok v ↔ ∃ y, calculus.function? fn x = some y ∧ v = .real y := by
  simp only [applyFunction, ← function_iff]
  cases Scalar.function fn x <;> simp [Except.map, eq_comm]

theorem valueCombine_iff {op : BinOp} {x y : ℝ} {v : Value ℝ} :
    Value.combine op (.real x) (.real y) = .ok v ↔ ∃ z, calculus.operation? op x y = some z ∧ v = .real z := by
  simp only [Value.combine, ← combine_iff]
  cases Scalar.combine op x y <;> simp [Except.map, eq_comm]

/-- A root is a power to the reciprocal of its index, which is not zero. -/
theorem rootOf_iff {n : Nat} {x : ℝ} {v : Value ℝ} :
    rootOf n (.real x) = .ok v ↔ n ≠ 0 ∧ ∃ y, calculus.pow x (1 / n) = some y ∧ v = .real y := by
  have hone : (Scalar.ofNum (.int 1) : Except (Fault ℝ) ℝ) = .ok 1 := ofNum_iff.2 ⟨1, by simp, by simp⟩
  have hindex : (Scalar.ofNum (.int n) : Except (Fault ℝ) ℝ) = .ok n := ofNum_iff.2 ⟨n, by simp, by simp⟩
  simp only [rootOf, hone, hindex]
  cases hdivide : (Scalar.divide 1 (n : ℝ) : Except (Fault ℝ) ℝ) with
  | error f =>
    have hn : n = 0 := by
      by_contra hn
      rw [divide_iff.2 ⟨Nat.cast_ne_zero.2 hn, rfl⟩] at hdivide
      cases hdivide
    simp [hn]
  | ok y =>
    obtain ⟨hn, rfl⟩ := divide_iff.1 hdivide
    simp only [valueCombine_iff, PartialCalculus.operation?]
    exact (and_iff_right (Nat.cast_ne_zero.1 hn)).symm

end Reals

/-! ## Environments of numbers -/

/-- Variables stand for the numbers that they are given; there are no functions. -/
def Env.ofNumbers {α : Type} (ρ : String → Option α) : Env α := ⟨fun x => (ρ x).map .number, fun _ => none⟩

theorem Env.bind_ofNumbers {α : Type} (ρ : String → Option α) (name : String) (x : α) :
    (Env.ofNumbers ρ).bind name (.number x) = .ofNumbers (Function.update ρ name (some x)) := by
  simp only [Env.bind, Env.ofNumbers, Env.mk.injEq, and_true]
  funext y
  simp only [Function.update_apply]
  split <;> simp

/-! ## What a node needs for a value -/

section Nodes

variable {α : Type} [Scalar α] {bound : Tag → Env α → Expr → Outcome α} {env : Env α} {tag : Tag} {d : Domain}
  {a b : Expr} {v : Value α}

theorem Outcome.ofArithmetic_eq_ok_iff {α : Type} {r : Except (Fault α) (Value α)} {v : Value α} :
    Outcome.ofArithmetic r = .ok v ↔ r = .ok v :=
  ⟨Outcome.eq_ok_of_ofArithmetic, fun h => by rw [h, Outcome.ofArithmetic]⟩

theorem evaluateWith_number_iff {n : Num} (hd : d ≠ .interval) :
    evaluateWith bound (.number n) (.domain d) env = .ok v ↔ ∃ x, Scalar.ofNum n = .ok x ∧ v = .real x := by
  cases d with
  | interval => exact absurd rfl hd
  | real | vector =>
    simp only [evaluateWith, literalUnder]
    cases (Scalar.ofNum n : Except (Fault α) α) <;> simp [numberUnder, eq_comm]

theorem evaluateWith_var_iff {ρ : String → Option α} {x : String} (hd : d ≠ .interval) :
    evaluateWith bound (.var x) (.domain d) (.ofNumbers ρ) = .ok v ↔ ∃ y, ρ x = some y ∧ v = .real y := by
  have hvars : (Env.ofNumbers ρ).vars x = (ρ x).map .number := rfl
  rw [evaluateWith, hvars]
  cases d with
  | interval => exact absurd rfl hd
  | real | vector => cases ρ x <;> simp [numberUnder, eq_comm]

theorem evaluateWith_binary_iff {op : BinOp} (hd : d ≠ .interval) :
    evaluateWith bound (.binary op a b) (.domain d) env = .ok v ↔
      ∃ u w, evaluateWith bound a (.domain d) env = .ok u ∧ evaluateWith bound b (.domain d) env = .ok w ∧
        combineUnder op u w (.domain d) = .ok v := by
  have htag : secondTag op (.domain d) = .domain d := by simp [secondTag, hd]
  simp only [evaluateWith, htag]
  cases evaluateWith bound a (.domain d) env with
  | error f => simp
  | ok u => cases evaluateWith bound b (.domain d) env <;> simp

theorem evaluateWith_neg_iff :
    evaluateWith bound (.neg a) (.domain d) env = .ok v ↔
      ∃ u, evaluateWith bound a (.domain d) env = .ok u ∧ u.negate = .ok v := by
  simp only [evaluateWith]
  cases evaluateWith bound a (.domain d) env <;> simp [Outcome.ofArithmetic_eq_ok_iff]

theorem evaluateWith_apply_iff {fn : Fn} :
    evaluateWith bound (.apply fn a) tag env = .ok v ↔
      fn.hasValues tag = true ∧ ∃ u, evaluateWith bound a tag env = .ok u ∧ applyFunction fn u = .ok v := by
  simp only [evaluateWith]
  split
  · rename_i htag
    cases evaluateWith bound a tag env <;> simp [htag, Outcome.ofArithmetic_eq_ok_iff]
  · rename_i htag
    cases tag <;> simp [htag, Outcome.refused]

theorem evaluateWith_root_iff {n : Nat} :
    evaluateWith bound (.root n a) tag env = .ok v ↔
      tag.isScalar = true ∧ ∃ u, evaluateWith bound a tag env = .ok u ∧ rootOf n u = .ok v := by
  simp only [evaluateWith]
  split
  · rename_i htag
    cases evaluateWith bound a tag env <;> simp [htag, Outcome.ofArithmetic_eq_ok_iff]
  · rename_i htag
    cases tag <;> simp [htag, Outcome.refused]

theorem evaluateWith_log_iff :
    evaluateWith bound (.log b a) tag env = .ok v ↔
      tag.isScalar = true ∧ ∃ u w, (evaluateWith bound a tag env = .ok u ∧ evaluateWith bound b tag env = .ok w) ∧
        ∃ x y, applyFunction .ln u = .ok x ∧ applyFunction .ln w = .ok y ∧ x.combine .divide y = .ok v := by
  simp only [evaluateWith]
  split
  · rename_i htag
    cases evaluateWith bound a tag env with
    | error f => simp
    | ok u =>
      cases hu : applyFunction .ln u with
      | error f => simp [hu]
      | ok x =>
        cases evaluateWith bound b tag env with
        | error f => simp [hu]
        | ok w => cases hw : applyFunction .ln w <;> simp [htag, hu, hw, Outcome.ofArithmetic_eq_ok_iff]
  · rename_i htag
    cases tag <;> simp [htag, Outcome.refused]

/-- A vector of one element is a number. -/
theorem evaluateWith_vector_real_iff {es : List Expr} :
    evaluateWith bound (.vector es) (.domain .real) env = .ok v ↔
      ∃ e, es = [e] ∧ evaluateWith bound e (.domain .real) env = .ok v := by
  simp only [evaluateWith]
  split
  · rename_i hlength
    obtain ⟨e, rfl⟩ := List.length_eq_one_iff.1 hlength
    simp only [evaluateAll, List.cons.injEq, and_true, exists_eq_left']
    cases evaluateWith bound e (.domain .real) env <;> simp
  · rename_i hlength
    constructor
    · intro h
      cases h
    · rintro ⟨e, rfl, -⟩
      exact absurd rfl hlength

end Nodes

end ExprCalculus
