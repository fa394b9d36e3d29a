import ExprCalculus.Proofs.Evaluation.Names
import ExprCalculus.Proofs.Interval.Operations

/-!
# Interval evaluation encloses real evaluation

Over the rational numbers, take a tree of numbers and variables under sums, differences, products, quotients,
negatives and powers to constant integers.  Let the variables be bound to intervals on one side and to members of
these intervals on the other.  If the tree has an interval for its value, then it has a number for its value, and the
interval holds the number: no quotient and no power that is taken on the way is refused.

The argument is one step for each operation, from `Operations`, and an induction over the tree.  The exponent of a
power is evaluated as a number on both sides; being constant, it has one value whatever the variables are bound to.
-/

namespace ExprCalculus

open Exact

/-! ## Constant trees -/

section Constant

mutual

/-- A constant tree looks up no names. -/
theorem Expr.namesIn_of_isConstant : ∀ (e : Expr) (V F : Set String), e.isConstant = true → e.NamesIn V F
  | .number _, _, _, _ => trivial
  | .var _, _, _, h | .call _, _, _, h => by cases h
  | .fixed e, V, F, h | .neg e, V, F, h | .apply _ e, V, F, h | .root _ e, V, F, h => namesIn_of_isConstant e V F h
  | .vector es, V, F, h => allNamesIn_of_allConstant es V F h
  | .interval a b, V, F, h | .binary _ a b, V, F, h | .log a b, V, F, h | .compose a b, V, F, h => by
    rw [isConstant, Bool.and_eq_true] at h
    exact ⟨namesIn_of_isConstant a V F h.1, namesIn_of_isConstant b _ F h.2⟩
  | .custom _ _ e, V, F, h => by
    rw [isConstant, Bool.and_eq_true] at h
    exact namesIn_of_isConstant e V F h.2

theorem Expr.allNamesIn_of_allConstant :
    ∀ (es : List Expr) (V F : Set String), allConstant es = true → AllNamesIn es V F
  | [], _, _, _ => trivial
  | e :: es, V, F, h => by
    rw [allConstant, Bool.and_eq_true] at h
    exact ⟨namesIn_of_isConstant e V F h.1, allNamesIn_of_allConstant es V F h.2⟩

end

/-- The value of a constant tree does not depend on what names are bound to. -/
theorem evaluateWith_of_isConstant {α : Type} [Scalar α] (bound bound' : Tag → Env α → Expr → Outcome α)
    (env env' : Env α) (e : Expr) (tag : Tag) (he : e.isConstant = true) :
    evaluateWith bound e tag env = evaluateWith bound' e tag env' := by
  have halike : env.Alike (fun _ _ => False) ∅ ∅ env' := ⟨fun x hx => hx.elim, fun f hf => hf.elim⟩
  exact evaluateWith_alike (fun _ _ _ _ h => h.elim) e tag subset_rfl halike (e.namesIn_of_isConstant ∅ ∅ he)

end Constant

/-! ## Outcomes -/

/-- An interval outcome that holds the number of a real outcome. -/
def Outcome.Encloses (outer inner : Outcome ℚ) : Prop :=
  ∀ v, outer = .ok v → ∃ i x, v = .interval i ∧ inner = .ok (.real x) ∧ x ∈ i

theorem Outcome.Encloses.of_interval {r : Except (Fault ℚ) (Interval ℚ)} {inner : Outcome ℚ}
    (h : ∀ k, r = .ok k → ∃ z ∈ k, inner = .ok (.real z)) :
    Outcome.Encloses (.ofArithmetic (Value.ofInterval r)) inner := by
  intro v hv
  cases r with
  | error f => cases hv
  | ok k =>
    cases hv
    obtain ⟨z, hz, hinner⟩ := h k rfl
    exact ⟨k, z, rfl, hinner, hz⟩

section Enclosure

variable [Functions]

/-! ## Trees and bindings -/

/-- Trees of numbers and variables under the operations of arithmetic, powers to constant integers among them. -/
inductive Expr.Arithmetic : Expr → Prop where
  | number (v : Num) : Arithmetic (.number v)
  | var (x : String) : Arithmetic (.var x)
  | fixed {e : Expr} (h : Arithmetic e) : Arithmetic (.fixed e)
  | plus {a b : Expr} (ha : Arithmetic a) (hb : Arithmetic b) : Arithmetic (.plus a b)
  | minus {a b : Expr} (ha : Arithmetic a) (hb : Arithmetic b) : Arithmetic (.minus a b)
  | times {a b : Expr} (ha : Arithmetic a) (hb : Arithmetic b) : Arithmetic (.times a b)
  | divide {a b : Expr} (ha : Arithmetic a) (hb : Arithmetic b) : Arithmetic (.divide a b)
  | neg {a : Expr} (h : Arithmetic a) : Arithmetic (.neg a)
  | power {a b : Expr} (n : Int) (ha : Arithmetic a) (hb : b.isConstant = true)
      (hn : evaluate (.domain .real) Env.empty b = .ok (.real (n : ℚ))) : Arithmetic (.power a b)

/-- The number that a literal with any signs before it is. -/
def Expr.signedNumber? : Expr → Option ℚ
  | .number v => v.rational?
  | .neg e => e.signedNumber?.map (-·)
  | _ => none

/-- The number that a variable is bound to. -/
def Binding.number? : Binding ℚ → Option ℚ
  | .number x => some x
  | .tree e => e.signedNumber?

/-- The bounds that a variable is bound to: those of an interval of two numbers, or one number twice. -/
def Binding.bounds? : Binding ℚ → Option (Interval ℚ)
  | .tree (.interval lo hi) =>
    match lo.signedNumber?, hi.signedNumber? with
    | some a, some b => some ⟨a, b⟩
    | _, _ => none
  | b => b.number?.map .point

/-- Whatever one environment binds to bounds, the other binds to a number within them. -/
def Env.Encloses (outer inner : Env ℚ) : Prop :=
  ∀ name b, outer.vars name = some b →
    ∃ b' i x, b.bounds? = some i ∧ inner.vars name = some b' ∧ b'.number? = some x ∧ x ∈ i

/-! ## Values of bindings -/

variable {bound : Tag → Env ℚ → Expr → Outcome ℚ} {env : Env ℚ} {x : ℚ} {i : Interval ℚ}

theorem literalUnder_eq {v : Num} (h : v.rational? = some x) (d : Domain) :
    literalUnder v (.domain d) = numberUnder x (.domain d) := by
  have hx : (Scalar.ofNum v : Except (Fault ℚ) ℚ) = .ok x := by
    have : (Scalar.ofNum? v : Option ℚ) = some x := h
    simp only [Scalar.ofNum, this]
  simp only [literalUnder, hx]

theorem evaluateWith_signedNumber : ∀ {e : Expr} {x : ℚ}, e.signedNumber? = some x →
    evaluateWith bound e (.domain .real) env = .ok (.real x) ∧
      evaluateWith bound e (.domain .interval) env = .ok (.interval (.point x))
  | .number v, x, h => by
    simp only [evaluateWith, literalUnder_eq h, numberUnder, and_self]
  | .neg e, x, h => by
    obtain ⟨y, hy, rfl⟩ := Option.map_eq_some_iff.1 h
    obtain ⟨hreal, hinterval⟩ := evaluateWith_signedNumber hy
    have hneg : (Interval.point y).neg = .ok (.point (-y)) := Interval.make_of_le le_rfl
    simp only [evaluateWith, hreal, hinterval, Value.negate, hneg, Value.ofInterval, Except.map,
      Outcome.ofArithmetic, and_self]

theorem evaluate_of_signedNumber {e : Expr} (h : e.signedNumber? = some x) (env : Env ℚ) :
    evaluate (.domain .real) env e = .ok (.real x) :=
  (evaluateWith_signedNumber h).1

theorem evaluate_var_real {depth : Nat} {name : String} {b : Binding ℚ} (hb : env.vars name = some b)
    (hx : b.number? = some x) :
    evaluateUpTo (depth + 2) (.domain .real) env (.var name) = .ok (.real x) := by
  cases b with
  | number y =>
    cases hx
    simp only [evaluateUpTo, evaluateWith, hb, numberUnder]
  | tree e => simp only [evaluateUpTo, evaluateWith, hb, (evaluateWith_signedNumber hx).1]

theorem evaluate_var_interval {depth : Nat} {name : String} {b : Binding ℚ} (hb : env.vars name = some b)
    (hi : b.bounds? = some i) (hx : x ∈ i) :
    evaluateUpTo (depth + 2) (.domain .interval) env (.var name) = .ok (.interval i) := by
  unfold Binding.bounds? at hi
  split at hi
  · rename_i lo hi'
    split at hi
    · rename_i a c ha hc
      cases hi
      simp only [evaluateUpTo, evaluateWith, hb, if_true, (evaluateWith_signedNumber ha).1,
        (evaluateWith_signedNumber hc).1, Value.between, Value.number, Interval.make_of_le (hx.1.trans hx.2),
        Value.ofInterval, Except.map, Outcome.ofArithmetic]
    · cases hi
  · obtain ⟨y, hy, rfl⟩ := Option.map_eq_some_iff.1 hi
    cases b with
    | number z =>
      cases hy
      simp only [evaluateUpTo, evaluateWith, hb, numberUnder]
    | tree e => simp only [evaluateUpTo, evaluateWith, hb, (evaluateWith_signedNumber hy).2]

/-! ## Operations -/

/-- The four operations that intervals have. -/
theorem combineUnder_encloses {op : BinOp} (hop : op ≠ .power) {i j : Interval ℚ} {x y : ℚ} (hx : x ∈ i)
    (hy : y ∈ j) :
    Outcome.Encloses (combineUnder op (.interval i) (.interval j) (.domain .interval))
      (combineUnder op (.real x) (.real y) (.domain .real)) := by
  cases op with
  | plus => exact .of_interval fun k hk => ⟨x + y, Interval.mem_add hk hx hy, rfl⟩
  | minus => exact .of_interval fun k hk => ⟨x - y, Interval.mem_sub hk hx hy, rfl⟩
  | times => exact .of_interval fun k hk => ⟨x * y, Interval.mem_mul hk hx hy, rfl⟩
  | divide =>
    refine .of_interval fun k hk => ?_
    obtain ⟨hne, hmem⟩ := Interval.mem_div hk hx hy
    have hdiv : (Scalar.divide x y : Except (Fault ℚ) ℚ) = .ok (x / y) := if_neg hne
    refine ⟨x / y, hmem, ?_⟩
    simp only [combineUnder, Value.combine, Scalar.combine, hdiv, Except.map, Outcome.ofArithmetic]
  | power => exact absurd rfl hop
  | modulo =>
    intro v hv
    cases hv

theorem power_encloses {i : Interval ℚ} {x : ℚ} (n : Int) (hx : x ∈ i) :
    Outcome.Encloses (combineUnder .power (.interval i) (.real (n : ℚ)) (.domain .interval))
      (combineUnder .power (.real x) (.real (n : ℚ)) (.domain .real)) := by
  refine .of_interval fun k hk => ?_
  obtain ⟨z, hz, hpower⟩ := Interval.mem_pow hk hx
  refine ⟨z, hz, ?_⟩
  simp only [combineUnder, Value.combine, Scalar.combine, hpower, Except.map, Outcome.ofArithmetic]

/-! ## Trees -/

variable {outer inner : Env ℚ} {depth : Nat} {a b : Expr}

theorem evaluate_binary_encloses {op : BinOp} (hop : op ≠ .power)
    (ha : Outcome.Encloses (evaluateUpTo (depth + 1) (.domain .interval) outer a)
      (evaluateUpTo (depth + 1) (.domain .real) inner a))
    (hb : Outcome.Encloses (evaluateUpTo (depth + 1) (.domain .interval) outer b)
      (evaluateUpTo (depth + 1) (.domain .real) inner b)) :
    Outcome.Encloses (evaluateUpTo (depth + 1) (.domain .interval) outer (.binary op a b))
      (evaluateUpTo (depth + 1) (.domain .real) inner (.binary op a b)) := by
  intro v hv
  have hsecond (tag : Tag) : secondTag op tag = tag := if_neg fun h => hop h.1
  simp only [evaluateUpTo, evaluateWith, hsecond] at ha hb hv ⊢
  split at hv
  · cases hv
  rename_i va hva
  split at hv
  · cases hv
  rename_i vb hvb
  obtain ⟨i, x, rfl, hrealA, hx⟩ := ha va hva
  obtain ⟨j, y, rfl, hrealB, hy⟩ := hb vb hvb
  simp only [hrealA, hrealB]
  exact combineUnder_encloses hop hx hy v hv

/-- The exponent, being constant, is the same number on both sides. -/
theorem evaluate_power_encloses {n : Int} (hb : b.isConstant = true)
    (hn : evaluate (.domain .real) Env.empty b = .ok (.real (n : ℚ)))
    (ha : Outcome.Encloses (evaluateUpTo (depth + 1) (.domain .interval) outer a)
      (evaluateUpTo (depth + 1) (.domain .real) inner a)) :
    Outcome.Encloses (evaluateUpTo (depth + 1) (.domain .interval) outer (.power a b))
      (evaluateUpTo (depth + 1) (.domain .real) inner (.power a b)) := by
  have hexponent (env : Env ℚ) : evaluateWith (evaluateUpTo depth) b (.domain .real) env = .ok (.real (n : ℚ)) :=
    (evaluateWith_of_isConstant _ _ env Env.empty b _ hb).trans hn
  have htag : secondTag .power (.domain .interval) = .domain .real := rfl
  have htag' : secondTag .power (.domain .real) = .domain .real := rfl
  intro v hv
  simp only [evaluateUpTo, evaluateWith, htag, htag', hexponent] at ha hv ⊢
  split at hv
  · cases hv
  rename_i va hva
  obtain ⟨i, x, rfl, hreal, hx⟩ := ha va hva
  simp only [hreal]
  exact power_encloses n hx v hv

theorem evaluate_neg_encloses
    (ha : Outcome.Encloses (evaluateUpTo (depth + 1) (.domain .interval) outer a)
      (evaluateUpTo (depth + 1) (.domain .real) inner a)) :
    Outcome.Encloses (evaluateUpTo (depth + 1) (.domain .interval) outer (.neg a))
      (evaluateUpTo (depth + 1) (.domain .real) inner (.neg a)) := by
  intro v hv
  simp only [evaluateUpTo, evaluateWith] at ha hv ⊢
  split at hv
  · cases hv
  rename_i va hva
  obtain ⟨i, x, rfl, hreal, hx⟩ := ha va hva
  simp only [hreal]
  exact Outcome.Encloses.of_interval (fun k hk => ⟨-x, Interval.mem_neg hk hx, rfl⟩) v hv

/-- A whole tree: an induction with one step for each operation. -/
theorem evaluateUpTo_encloses (henv : outer.Encloses inner) {e : Expr} (he : e.Arithmetic) :
    Outcome.Encloses (evaluateUpTo (depth + 2) (.domain .interval) outer e)
      (evaluateUpTo (depth + 2) (.domain .real) inner e) := by
  induction he with
  | number v =>
    intro w hw
    cases hv : v.rational? with
    | none =>
      have hv : (Scalar.ofNum? v : Option ℚ) = none := hv
      simp [evaluateUpTo, evaluateWith, literalUnder, Scalar.ofNum, hv] at hw
    | some x =>
      simp only [evaluateUpTo, evaluateWith, literalUnder_eq hv, numberUnder] at hw ⊢
      cases hw
      exact ⟨.point x, x, rfl, rfl, Interval.mem_point x⟩
  | var name =>
    intro w hw
    cases hvars : outer.vars name with
    | none => simp [evaluateUpTo, evaluateWith, hvars] at hw
    | some b =>
      obtain ⟨b', i, x, hi, hb', hx, hmem⟩ := henv name b hvars
      rw [evaluate_var_interval hvars hi hmem] at hw
      cases hw
      exact ⟨i, x, rfl, evaluate_var_real hb' hx, hmem⟩
  | fixed _ ih => simpa only [evaluateUpTo, evaluateWith] using ih
  | plus _ _ iha ihb => exact evaluate_binary_encloses (by decide) iha ihb
  | minus _ _ iha ihb => exact evaluate_binary_encloses (by decide) iha ihb
  | times _ _ iha ihb => exact evaluate_binary_encloses (by decide) iha ihb
  | divide _ _ iha ihb => exact evaluate_binary_encloses (by decide) iha ihb
  | neg _ ih => exact evaluate_neg_encloses ih
  | power n _ hb hn ih => exact evaluate_power_encloses hb hn ih

/-- **Enclosure**: if the tree has a value as an interval, with its variables bound to bounds, then that value is an
interval, and the tree has a value as a number, with its variables bound to any numbers within the bounds; the
interval holds the number. -/
theorem evaluate_interval_encloses (henv : outer.Encloses inner) {e : Expr} (he : e.Arithmetic) {v : Value ℚ}
    (h : evaluate (.domain .interval) outer e = .ok v) :
    ∃ lo hi x, v = .interval ⟨lo, hi⟩ ∧ evaluate (.domain .real) inner e = .ok (.real x) ∧ lo ≤ x ∧ x ≤ hi := by
  obtain ⟨i, x, rfl, hreal, hx⟩ := evaluateUpTo_encloses henv he v h
  exact ⟨i.lo, i.hi, x, rfl, hreal, hx⟩

end Enclosure

/-- The tree `(x ^ 2 + 1) ^ (-1)`. -/
def Expr.bellCurve : Expr := .power (.plus (.power (.var "x") (.int 2)) (.int 1)) (.neg (.int 1))

/-- The variable lies between -1 and 2, on both sides of zero. -/
theorem evaluate_interval_encloses_bellCurve :
    evaluate (.domain .interval) (Env.empty.bind "x" (.tree (.interval (.neg (.int 1)) (.int 2)))) Expr.bellCurve =
        .ok (.interval ⟨(1 / 5 : ℚ), 1⟩) ∧
      ∃ x : ℚ, evaluate (.domain .real) (Env.empty.bind "x" (.number (-1 / 2))) Expr.bellCurve = .ok (.real x) ∧
        1 / 5 ≤ x ∧ x ≤ 1 := by
  have henv : Env.Encloses (Env.empty.bind "x" (.tree (.interval (.neg (.int 1)) (.int 2))))
      (Env.empty.bind "x" (.number (-1 / 2))) := by
    intro name b hb
    by_cases hname : name = "x"
    · simp only [Env.bind, hname, if_true, Option.some.injEq] at hb
      subst hb
      exact ⟨.number (-1 / 2), ⟨-1, 2⟩, -1 / 2, by simp [Binding.bounds?, Expr.signedNumber?],
        by simp [Env.bind, hname], rfl, by norm_num, by norm_num⟩
    · simp [Env.bind, Env.empty, hname] at hb
  have htwo : (Expr.int 2).signedNumber? = some ((2 : Int) : ℚ) := by simp [Expr.signedNumber?]
  have hone : (Expr.neg (.int 1)).signedNumber? = some ((-1 : Int) : ℚ) := by simp [Expr.signedNumber?]
  have he : Expr.bellCurve.Arithmetic :=
    .power (-1) (.plus (.power 2 (.var _) rfl (evaluate_of_signedNumber htwo _)) (.number _)) rfl
      (evaluate_of_signedNumber hone _)
  have hv : (evaluate (.domain .interval) (Env.empty.bind "x" (.tree (.interval (.neg (.int 1)) (.int 2))))
      Expr.bellCurve).toOption = some (.interval ⟨(1 / 5 : ℚ), 1⟩) := by decide +kernel
  cases h : (evaluate (.domain .interval) (Env.empty.bind "x" (.tree (.interval (.neg (.int 1)) (.int 2))))
      Expr.bellCurve : Outcome ℚ) with
  | error e =>
    rw [h] at hv
    cases hv
  | ok v =>
    rw [h] at hv
    cases hv
    obtain ⟨lo, hi, x, hbounds, hreal, hx⟩ := evaluate_interval_encloses henv he h
    cases hbounds
    exact ⟨rfl, x, hreal, hx⟩

end ExprCalculus
