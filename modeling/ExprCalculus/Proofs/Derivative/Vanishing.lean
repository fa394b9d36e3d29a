import ExprCalculus.Proofs.Derivative.Correctness
import ExprCalculus.Simplify

/-!
# Derivatives by a variable that does not occur

The derivative of a tree by a variable that is not free in it is as large as any other, since `derive` simplifies
nothing.  One pass makes it zero: each rule of differentiation multiplies or divides the derivatives of the parts by
something, and a zero absorbs what it is multiplied or divided by before any other rule looks at it.

* `Vanishes` — the trees that one pass makes zero; one lemma for each operation and each rule of differentiation.
* `simplify_derive_of_not_mem` — the derivative vanishes and it exists.
-/

namespace ExprCalculus.Expr

/-! ## Trees of the calculus -/

/-- Trees of numbers and variables under the operations and the default functions. -/
inductive Basic : Expr → Prop where
  | number (v : Num) : Basic (.number v)
  | var (x : String) : Basic (.var x)
  | fixed {e : Expr} (he : Basic e) : Basic (.fixed e)
  | binary (op : BinOp) {a b : Expr} (ha : Basic a) (hb : Basic b) : Basic (.binary op a b)
  | neg {a : Expr} (ha : Basic a) : Basic (.neg a)
  | apply (fn : Fn) {a : Expr} (ha : Basic a) : Basic (.apply fn a)
  | log {base a : Expr} (hbase : Basic base) (ha : Basic a) : Basic (.log base a)
  | root (n : Nat) {a : Expr} (ha : Basic a) : Basic (.root n a)

theorem Basic.hasCall {e : Expr} (he : e.Basic) : e.hasCall = false := by
  induction he with
  | number | var => rfl
  | fixed _ ih | neg _ ih | apply _ _ ih | root _ _ ih => exact ih
  | binary _ _ _ iha ihb | log _ _ iha ihb => simp [Expr.hasCall, iha, ihb]

/-- A tree without calls is free of what is not among its free names. -/
theorem Basic.isFreeOf {e : Expr} {v : String} (he : e.Basic) (hv : v ∉ e.freeVars) : isFreeOf v e = true := by
  simp [Expr.isFreeOf, hv, he.hasCall]

/-! ## Trees that vanish -/

/-- One pass makes the tree zero. -/
def Vanishes (e : Expr) : Prop := simplify e = int 0

namespace Vanishes

variable {a b da db : Expr}

theorem zero : Vanishes (int 0) := by
  show simplify (int 0) = int 0
  rw [simplify]

theorem neg (ha : Vanishes a) : Vanishes (.neg a) := by
  show simplifyNeg (simplify a) = int 0
  rw [ha]
  rfl

theorem plus (ha : Vanishes a) (hb : Vanishes b) : Vanishes (plus a b) := by
  show simplifySum (simplify a) (simplify b) = int 0
  rw [ha, hb]
  rfl

theorem minus (ha : Vanishes a) (hb : Vanishes b) : Vanishes (minus a b) := by
  show simplifyDifference (simplify a) (simplify b) = int 0
  rw [ha, hb]
  rfl

/-- A zero absorbs what stands after it. -/
theorem times_left (ha : Vanishes a) (b : Expr) : Vanishes (times a b) := by
  show simplifyProduct (simplify a) (simplify b) = int 0
  rw [ha]
  unfold simplifyProduct
  exact if_pos rfl

/-- A zero absorbs what stands before it. -/
theorem times_right (a : Expr) (hb : Vanishes b) : Vanishes (times a b) := by
  show simplifyProduct (simplify a) (simplify b) = int 0
  rw [hb]
  unfold simplifyProduct
  exact if_pos (Bool.or_true _)

/-- A zero absorbs what it is divided by. -/
theorem divide (ha : Vanishes a) (b : Expr) : Vanishes (divide a b) := by
  show simplifyQuotient (simplify a) (simplify b) = int 0
  rw [ha]
  unfold simplifyQuotient
  exact if_pos rfl

/-! ## Rules of differentiation -/

theorem productRule (a b : Expr) (hda : Vanishes da) (hdb : Vanishes db) : Vanishes (productRule a b da db) :=
  plus (times_right a hdb) (times_left hda b)

theorem quotientRule (a b : Expr) (hda : Vanishes da) (hdb : Vanishes db) : Vanishes (quotientRule a b da db) :=
  divide (minus (times_left hda b) (times_right a hdb)) _

theorem powerRule (a b : Expr) (hda : Vanishes da) : Vanishes (powerRule a b da) := times_right _ hda

theorem lnRule (a : Expr) (hda : Vanishes da) : Vanishes (lnRule a da) := divide hda _

theorem sinRule (a : Expr) (hda : Vanishes da) : Vanishes (sinRule a da) := times_right _ hda

theorem cosRule (a : Expr) (hda : Vanishes da) : Vanishes (cosRule a da) := times_right _ hda

theorem tanRule (a : Expr) (hda : Vanishes da) : Vanishes (tanRule a da) :=
  quotientRule _ _ (sinRule _ hda) (cosRule _ hda)

theorem logRule (b a : Expr) (hdb : Vanishes db) (hda : Vanishes da) : Vanishes (logRule b a db da) :=
  quotientRule _ _ (lnRule _ hda) (lnRule _ hdb)

theorem rootRule (n : Nat) (a : Expr) (hda : Vanishes da) : Vanishes (rootRule n a da) := powerRule _ _ hda

/-- The derivative of every default function vanishes with the derivative of its argument. -/
theorem functionRule (fn : Fn) (a : Expr) (hda : Vanishes da) : Vanishes (functionRule fn a da) := by
  cases fn with
  | exp | arcsin | arccos | arctan | abs => exact times_right _ hda
  | ln => exact lnRule a hda
  | sqrt => exact rootRule 2 a hda
  | sin => exact sinRule a hda
  | cos => exact cosRule a hda
  | tan => exact tanRule a hda
  | ceil | floor | sgn => exact zero

/-- The derivative of an operation vanishes with those of its operands.  Of a power only the base is differentiated,
as the exponent is free of the variable. -/
theorem operationRule {v : String} (op : BinOp) (a : Expr) (hfree : isFreeOf v b = true) (hda : Vanishes da)
    (hdb : Vanishes db) : Vanishes (operationRule v op a b da db) := by
  cases op with
  | plus => exact plus hda hdb
  | minus => exact minus hda hdb
  | times => exact productRule a b hda hdb
  | divide => exact quotientRule a b hda hdb
  | modulo => exact minus hda (times_right _ hdb)
  | power =>
    have hrule : Expr.operationRule v .power a b da db = Expr.powerRule a b da := if_pos hfree
    rw [hrule]
    exact powerRule a b hda

end Vanishes

/-- **The derivative by a variable that does not occur** exists, and one pass of simplification makes it zero. -/
theorem simplify_derive_of_not_mem {e : Expr} (he : e.Basic) {v : String} (hv : v ∉ e.freeVars) :
    ∃ d, derive v e = .ok d ∧ simplify d = int 0 := by
  show ∃ d, derive v e = .ok d ∧ Vanishes d
  induction he with
  | number n => exact ⟨int 0, rfl, .zero⟩
  | var x =>
    have hx : v ≠ x := by
      intro h
      exact hv (List.mem_singleton.mpr h)
    refine ⟨int (if v = x then 1 else 0), rfl, ?_⟩
    rw [if_neg hx]
    exact .zero
  | fixed _ ih => exact ih hv
  | neg _ ih =>
    obtain ⟨d, hd, hvanish⟩ := ih hv
    exact ⟨.neg d, derive_neg hd, hvanish.neg⟩
  | @binary op a b _ hb iha ihb =>
    rw [freeVars, List.mem_append, not_or] at hv
    obtain ⟨da, hda, hva⟩ := iha hv.1
    obtain ⟨db, hdb, hvb⟩ := ihb hv.2
    exact ⟨_, derive_binary op hda hdb, .operationRule op a (hb.isFreeOf hv.2) hva hvb⟩
  | @apply fn a _ ih =>
    obtain ⟨d, hd, hvanish⟩ := ih hv
    exact ⟨_, derive_apply fn hd, .functionRule fn a hvanish⟩
  | @log base a _ _ ihbase iha =>
    rw [freeVars, List.mem_append, not_or] at hv
    obtain ⟨dbase, hdbase, hvbase⟩ := ihbase hv.1
    obtain ⟨da, hda, hva⟩ := iha hv.2
    exact ⟨_, derive_log hdbase hda, .logRule base a hvbase hva⟩
  | @root n a _ ih =>
    obtain ⟨d, hd, hvanish⟩ := ih hv
    exact ⟨_, derive_root n hd, .rootRule n a hvanish⟩

/-- The tree `log(2, tan(x ^ arcsin(x))) % nrt(3, x)`: logarithm, tangent and root are differentiated in other forms. -/
def remainderOfLogarithm : Expr :=
  .modulo (.log (.int 2) (.apply .tan (.power (.var "x") (.apply .arcsin (.var "x"))))) (.root 3 (.var "x"))

theorem simplify_derive_remainderOfLogarithm :
    remainderOfLogarithm.Basic ∧ "y" ∉ remainderOfLogarithm.freeVars ∧
      ∃ d, derive "y" remainderOfLogarithm = .ok d ∧ simplify d = int 0 := by
  have hx : Basic (.var "x") := .var "x"
  have hpower : Basic (.power (.var "x") (.apply .arcsin (.var "x"))) := .binary .power hx (.apply .arcsin hx)
  have hbasic : remainderOfLogarithm.Basic :=
    .binary .modulo (.log (.number _) (.apply .tan hpower)) (.root 3 hx)
  have hy : "y" ∉ remainderOfLogarithm.freeVars := by decide
  exact ⟨hbasic, hy, simplify_derive_of_not_mem hbasic hy⟩

end ExprCalculus.Expr
