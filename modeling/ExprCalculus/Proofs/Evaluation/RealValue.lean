import ExprCalculus.Proofs.Number.RealArithmetic

/-!
# Trees that have a real value whatever their variables are bound to

Take a tree of numbers and variables under the operations and the default functions.  If its variables lead, through
other such trees and without a cycle, to numbers, then it has a real value, and so have all its parts: quotients by
zero, logarithms of what is not positive, infinities and what is not a number are no obstacle.  Only an integer out of
range of the machine numbers is one.

* `hasReal_binary`, `hasReal_log`, … — one step for each kind of tree.
* `hasReal_of_names`, `hasReal_of_resolves` — whole trees, by induction over the tree and over the bindings.
* `evaluate_real_ok` — the value, wherever names may lead through enough bindings.
-/

namespace ExprCalculus

/-! ## Trees and bindings -/

/-- Trees of numbers and variables under the operations and the default functions, the integers in them being in
range of the machine numbers. -/
inductive Expr.RealTree : Expr → Prop where
  | number {v : Num} {x : Float} (hv : v.toFloat? = some x) : RealTree (.number v)
  | var (x : String) : RealTree (.var x)
  | fixed {e : Expr} (he : RealTree e) : RealTree (.fixed e)
  | binary (op : BinOp) {a b : Expr} (ha : RealTree a) (hb : RealTree b) : RealTree (.binary op a b)
  | neg {a : Expr} (ha : RealTree a) : RealTree (.neg a)
  | apply (fn : Fn) {a : Expr} (ha : RealTree a) : RealTree (.apply fn a)
  | log {base a : Expr} (hbase : RealTree base) (ha : RealTree a) : RealTree (.log base a)
  | root {n : Nat} {a : Expr} {x : Float} (hn : (Num.int n).toFloat? = some x) (ha : RealTree a) :
      RealTree (.root n a)

/-- A name that leads to numbers: it is bound to a number, or to a tree whose names lead to numbers.  There is no cycle
among the bindings it leads through. -/
inductive Env.Resolves (env : Env Float) : String → Prop where
  | number {name : String} {x : Float} (h : env.vars name = some (.number x)) : Resolves env name
  | tree {name : String} {e : Expr} (h : env.vars name = some (.tree e)) (he : e.RealTree)
      (hnames : ∀ x ∈ e.freeVars, Resolves env x) : Resolves env name

/-- A tree has a real value, the same wherever names may lead through enough bindings. -/
def Env.HasReal (env : Env Float) (e : Expr) : Prop :=
  ∃ x depth₀, ∀ depth, depth₀ ≤ depth → evaluateUpTo (depth + 1) (.domain .real) env e = .ok (.real x)

variable {env : Env Float} {a b : Expr}

/-! ## One step for each kind of tree -/

theorem hasReal_number {v : Num} {x : Float} (hv : v.toFloat? = some x) : env.HasReal (.number v) := by
  have hx : (Scalar.ofNum v : Except (Fault Float) Float) = .ok x := by
    have hv : (Scalar.ofNum? v : Option Float) = some x := hv
    simp only [Scalar.ofNum, hv]
  refine ⟨x, 0, fun depth _ => ?_⟩
  simp only [evaluateUpTo, evaluateWith, literalUnder, hx, numberUnder]

theorem hasReal_calculated {name : String} {x : Float} (h : env.vars name = some (.number x)) :
    env.HasReal (.var name) := by
  refine ⟨x, 0, fun depth _ => ?_⟩
  simp only [evaluateUpTo, evaluateWith, h, numberUnder]

/-- A variable takes one binding more than what it is bound to. -/
theorem hasReal_var {name : String} {e : Expr} (h : env.vars name = some (.tree e)) (he : env.HasReal e) :
    env.HasReal (.var name) := by
  obtain ⟨x, n, hx⟩ := he
  refine ⟨x, n + 1, fun depth hdepth => ?_⟩
  obtain ⟨d, rfl⟩ := Nat.exists_eq_add_of_le' hdepth
  have hbound : evaluateUpTo (d + (n + 1)) (.domain .real) env e = .ok (.real x) := hx (d + n) (by omega)
  simp only [evaluateUpTo, evaluateWith, h] at hbound ⊢
  exact hbound

theorem hasReal_fixed (ha : env.HasReal a) : env.HasReal (.fixed a) := by
  obtain ⟨x, n, hx⟩ := ha
  refine ⟨x, n, fun depth hdepth => ?_⟩
  simpa only [evaluateUpTo, evaluateWith] using hx depth hdepth

theorem hasReal_binary (op : BinOp) (ha : env.HasReal a) (hb : env.HasReal b) : env.HasReal (.binary op a b) := by
  obtain ⟨x, m, hx⟩ := ha
  obtain ⟨y, n, hy⟩ := hb
  obtain ⟨z, hz⟩ := combine_ok op x y
  have htag : secondTag op (.domain .real) = .domain .real := by simp [secondTag]
  refine ⟨z, max m n, fun depth hdepth => ?_⟩
  have hx := hx depth (by omega)
  have hy := hy depth (by omega)
  simp only [evaluateUpTo, evaluateWith, htag] at hx hy ⊢
  simp only [hx, hy, combineUnder, hz, Outcome.ofArithmetic]

theorem hasReal_neg (ha : env.HasReal a) : env.HasReal (.neg a) := by
  obtain ⟨x, n, hx⟩ := ha
  refine ⟨-x, n, fun depth hdepth => ?_⟩
  have hx := hx depth hdepth
  simp only [evaluateUpTo, evaluateWith] at hx ⊢
  simp only [hx, Value.negate, Outcome.ofArithmetic]

theorem hasReal_apply (fn : Fn) (ha : env.HasReal a) : env.HasReal (.apply fn a) := by
  obtain ⟨x, n, hx⟩ := ha
  refine ⟨Binary64.function fn x, n, fun depth hdepth => ?_⟩
  have hx := hx depth hdepth
  simp only [evaluateUpTo, evaluateWith] at hx ⊢
  simp only [Fn.hasValues, if_true, hx, applyFunction_ok, Outcome.ofArithmetic]

/-- A logarithm is the quotient of two natural ones. -/
theorem hasReal_log (ha : env.HasReal a) (hb : env.HasReal b) : env.HasReal (.log a b) := by
  obtain ⟨x, m, hx⟩ := ha
  obtain ⟨y, n, hy⟩ := hb
  obtain ⟨z, hz⟩ := combine_ok .divide (Binary64.function .ln y) (Binary64.function .ln x)
  refine ⟨z, max m n, fun depth hdepth => ?_⟩
  have hx := hx depth (by omega)
  have hy := hy depth (by omega)
  simp only [evaluateUpTo, evaluateWith] at hx hy ⊢
  simp only [Tag.isScalar, if_true, hx, hy, applyFunction_ok, hz, Outcome.ofArithmetic]

theorem hasReal_root {n : Nat} {i : Float} (hn : (Num.int n).toFloat? = some i) (ha : env.HasReal a) :
    env.HasReal (.root n a) := by
  obtain ⟨x, m, hx⟩ := ha
  obtain ⟨y, hy⟩ := rootOf_ok hn x
  refine ⟨y, m, fun depth hdepth => ?_⟩
  have hx := hx depth hdepth
  simp only [evaluateUpTo, evaluateWith] at hx ⊢
  simp only [Tag.isScalar, if_true, hx, hy, Outcome.ofArithmetic]

/-! ## Whole trees -/

/-- A tree has a real value if its names have. -/
theorem hasReal_of_names {e : Expr} (he : e.RealTree) (hnames : ∀ x ∈ e.freeVars, env.HasReal (.var x)) :
    env.HasReal e := by
  induction he with
  | number hv => exact hasReal_number hv
  | var x => exact hnames x (by simp [Expr.freeVars])
  | fixed _ ih => exact hasReal_fixed (ih hnames)
  | binary op _ _ iha ihb =>
    rw [Expr.freeVars, List.forall_mem_append] at hnames
    exact hasReal_binary op (iha hnames.1) (ihb hnames.2)
  | neg _ ih => exact hasReal_neg (ih hnames)
  | apply fn _ ih => exact hasReal_apply fn (ih hnames)
  | log _ _ ihbase iha =>
    rw [Expr.freeVars, List.forall_mem_append] at hnames
    exact hasReal_log (ihbase hnames.1) (iha hnames.2)
  | root hn _ ih => exact hasReal_root hn (ih hnames)

/-- A name that leads to numbers has a real value: the induction follows the bindings it leads through. -/
theorem hasReal_of_resolves {name : String} (h : env.Resolves name) : env.HasReal (.var name) := by
  induction h with
  | number h => exact hasReal_calculated h
  | tree h he _ ih => exact hasReal_var h (hasReal_of_names he ih)

/-- **Real evaluation of a tree of numbers has a value**, a real number, wherever names may lead through enough
bindings, and always the same one. -/
theorem evaluate_real_ok {e : Expr} (he : e.RealTree) (hnames : ∀ x ∈ e.freeVars, env.Resolves x) :
    ∃ x depth₀, ∀ depth, depth₀ ≤ depth → evaluateUpTo depth (.domain .real) env e = .ok (.real x) := by
  obtain ⟨x, n, hx⟩ := hasReal_of_names he fun y hy => hasReal_of_resolves (hnames y hy)
  refine ⟨x, n + 1, fun depth hdepth => ?_⟩
  obtain ⟨d, rfl⟩ := Nat.exists_eq_add_of_le' hdepth
  exact hx (d + n) (by omega)

/-- The tree `(1 / x) ^ ln(y)`. -/
def Expr.powerOfReciprocal : Expr := .power (.divide (.int 1) (.var "x")) (.apply .ln (.var "y"))

/-- Binds `x` to zero and `y` to `x - 1`. -/
def Env.belowZero : Env Float := (Env.empty.bind "x" (.tree (.int 0))).bind "y" (.tree (.minus (.var "x") (.int 1)))

/-- The reciprocal is a quotient by zero, and the logarithm is that of a negative number. -/
theorem evaluate_real_ok_belowZero : ∃ x depth₀, ∀ depth, depth₀ ≤ depth →
    evaluateUpTo depth (.domain .real) Env.belowZero Expr.powerOfReciprocal = .ok (.real x) := by
  have hzero : (Num.int 0).toFloat? = some 0 := by decide +kernel
  have hone : (Num.int 1).toFloat? = some 1 := by decide +kernel
  have hx : Env.belowZero.Resolves "x" := .tree rfl (.number hzero) (by simp [Expr.freeVars])
  have hy : Env.belowZero.Resolves "y" :=
    .tree rfl (.binary .minus (.var "x") (.number hone)) (by simpa [Expr.freeVars] using hx)
  refine evaluate_real_ok (.binary .power (.binary .divide (.number hone) (.var "x")) (.apply .ln (.var "y"))) ?_
  simp [Expr.powerOfReciprocal, Expr.freeVars, hx, hy]

end ExprCalculus
