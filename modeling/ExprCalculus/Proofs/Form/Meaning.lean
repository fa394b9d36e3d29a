import ExprCalculus.Form.OfExpr
import ExprCalculus.Proofs.Number.Difference
import ExprCalculus.Proofs.Number.Interchange
import ExprCalculus.Proofs.Simplify.Reals

/-!
# What forms stand for

Each node of a form is read as the operation that it is named for, over the real numbers: sums and products of any
number of parts, powers, remainders and functions where these are real, machine numbers as the exact numbers they are.
A column stands for the numbers in its rows, and one of a single row also for the number in it.

* `Form.value?`, `Form.IsNumber`, `Form.IsColumn` — the number or the column that a form stands for.
* `Form.isNumber_ofNum` — the form of a literal stands for the exact value of the literal.
* `Form.instantiate` — forms in the place of symbols, all at once.
* `Form.value?_instantiate`, `Form.isColumn_instantiate` — a form with others put in stands for what it stands for where
  the symbols stand for what was put in.
-/

namespace ExprCalculus

open Reals

/-- The number that a quotient is. -/
noncomputable def Ratio.value? (q : Ratio) : Option ℝ := if q.den = 0 then none else some (q.num / q.den)

/-- The number that a constant is; only two are real numbers. -/
noncomputable def Constant.value? : Constant → Option ℝ
  | .e => some (Real.exp 1)
  | .pi => some Real.pi
  | _ => none

namespace Form

/-! ## Numbers and columns -/

section Values

/-- The number that stands alone. -/
def single? : List ℝ → Option ℝ
  | [x] => some x
  | _ => none

mutual

/-- The number that a form stands for, where `ρ` gives those that symbols stand for. -/
@[simp] noncomputable def value? (ρ : String → Option ℝ) : Form → Option ℝ
  | .ratio q => q.value?
  | .float x => (Num.float x).rational?.map (↑)
  | .constant c => c.value?
  | .symbol x => ρ x
  | .sum ts => (values? ρ ts).map List.sum
  | .product fs => (values? ρ fs).map List.prod
  | .power a b => (value? ρ a).bind fun x => (value? ρ b).bind (calculus.pow x)
  | .modulo a b => (value? ρ a).bind fun x => (value? ρ b).bind (calculus.operation? .modulo x)
  | .apply fn a => (value? ρ a).bind (calculus.function? fn)
  | .matrix rows => if rows.any isMatrix then none else (values? ρ rows).bind single?
  | .unknown .. | .interval .. | .emptySet | .finiteSet _ => none

/-- The numbers that several forms stand for. -/
@[simp] noncomputable def values? (ρ : String → Option ℝ) : List Form → Option (List ℝ)
  | [] => some []
  | f :: fs => (value? ρ f).bind fun x => (values? ρ fs).map (x :: ·)

end

variable {ρ : String → Option ℝ} {f : Form} {fs : List Form} {x : ℝ} {xs : List ℝ}

/-- Whether a form stands for a number and is no column. -/
def IsNumber (ρ : String → Option ℝ) (f : Form) (x : ℝ) : Prop := f.isMatrix = false ∧ f.value? ρ = some x

/-- Whether a form is a column of these numbers. -/
def IsColumn (ρ : String → Option ℝ) (f : Form) (xs : List ℝ) : Prop :=
  ∃ rows, f = .matrix rows ∧ List.Forall₂ (IsNumber ρ) rows xs

theorem single?_eq_some_iff : single? xs = some x ↔ xs = [x] := by
  unfold single?
  split <;> simp_all

theorem values?_eq_some_iff : values? ρ fs = some xs ↔ List.Forall₂ (fun f x => f.value? ρ = some x) fs xs := by
  induction fs generalizing xs with
  | nil => simp [eq_comm]
  | cons f fs ih =>
    rw [values?, List.forall₂_cons_left_iff, Option.bind_eq_some_iff]
    simp only [Option.map_eq_some_iff, ih]
    constructor
    · rintro ⟨x, hx, ys, hys, rfl⟩
      exact ⟨x, ys, hx, hys, rfl⟩
    · rintro ⟨x, ys, hx, hys, rfl⟩
      exact ⟨x, hx, ys, hys, rfl⟩

section Operations

variable {a b : Form} {y : ℝ}

theorem value?_sum_iff {z : ℝ} :
    (Form.sum [a, b]).value? ρ = some z ↔ ∃ x y, a.value? ρ = some x ∧ b.value? ρ = some y ∧ x + y = z := by
  cases ha : a.value? ρ <;> cases hb : b.value? ρ <;> simp [ha, hb]

theorem value?_sum (ha : a.value? ρ = some x) (hb : b.value? ρ = some y) :
    (Form.sum [a, b]).value? ρ = some (x + y) :=
  value?_sum_iff.2 ⟨x, y, ha, hb, rfl⟩

theorem value?_product_iff {z : ℝ} :
    (Form.product [a, b]).value? ρ = some z ↔ ∃ x y, a.value? ρ = some x ∧ b.value? ρ = some y ∧ x * y = z := by
  cases ha : a.value? ρ <;> cases hb : b.value? ρ <;> simp [ha, hb]

theorem value?_product (ha : a.value? ρ = some x) (hb : b.value? ρ = some y) :
    (Form.product [a, b]).value? ρ = some (x * y) :=
  value?_product_iff.2 ⟨x, y, ha, hb, rfl⟩

theorem value?_power (ha : a.value? ρ = some x) (hb : b.value? ρ = some y) :
    (Form.power a b).value? ρ = calculus.pow x y := by
  simp [ha, hb]

theorem value?_modulo (ha : a.value? ρ = some x) (hb : b.value? ρ = some y) :
    (Form.modulo a b).value? ρ = calculus.operation? .modulo x y := by
  simp [ha, hb]

theorem value?_apply {fn : Fn} (ha : a.value? ρ = some x) :
    (Form.apply fn a).value? ρ = calculus.function? fn x := by
  simp [ha]

theorem value?_int (n : Int) : (Form.int n).value? ρ = some (n : ℝ) := by
  simp [Ratio.value?, Ratio.ofInt]

/-- A power to minus one is a reciprocal. -/
theorem value?_reciprocal (hb : b.value? ρ = some y) (hy : y ≠ 0) :
    (Form.power b (.int (-1))).value? ρ = some y⁻¹ := by
  rw [value?_power hb (value?_int _)]
  have hbase : PowBase y ((-1 : ℤ) : ℝ) := .inr (.inr ⟨-1, rfl, hy⟩)
  exact only_eq_some.2 ⟨hbase, by rw [Real.rpow_intCast, zpow_neg_one]⟩

end Operations

/-- A column stands for a number if it has a single row, which is the number. -/
theorem value?_matrix_iff {rows : List Form} :
    (Form.matrix rows).value? ρ = some x ↔ ∃ f, rows = [f] ∧ f.IsNumber ρ x := by
  rw [value?]
  split
  · rename_i hrows
    refine ⟨nofun, ?_⟩
    rintro ⟨f, rfl, hf, -⟩
    simp [hf] at hrows
  · rename_i hrows
    simp only [Option.bind_eq_some_iff, single?_eq_some_iff, exists_eq_right, values?_eq_some_iff,
      List.forall₂_cons_right_iff, List.forall₂_nil_right_iff]
    constructor
    · rintro ⟨f, gs, hf, rfl, rfl⟩
      exact ⟨f, rfl, by simpa using hrows, hf⟩
    · rintro ⟨f, rfl, -, hf⟩
      exact ⟨f, [], hf, rfl, rfl⟩

/-- The form of a number, as its only row. -/
theorem exists_rows (h : f.value? ρ = some x) : ∃ g, f.rows = [g] ∧ g.IsNumber ρ x := by
  cases f with
  | matrix rows => exact value?_matrix_iff.1 h
  | _ => exact ⟨_, rfl, rfl, h⟩

theorem IsColumn.value? (h : f.IsColumn ρ [x]) : f.value? ρ = some x := by
  obtain ⟨rows, rfl, hrows⟩ := h
  cases hrows with
  | cons hg hnone =>
    cases hnone
    exact value?_matrix_iff.2 ⟨_, rfl, hg⟩

theorem isMatrix_of_isNumber (h : List.Forall₂ (IsNumber ρ) fs xs) : ∀ f ∈ fs, f.isMatrix = false := by
  induction h with
  | nil => nofun
  | cons hf _ ih => exact List.forall_mem_cons.2 ⟨hf.1, ih⟩

/-- The rows of forms of numbers are the rows of their column. -/
theorem isColumn_column (h : List.Forall₂ (fun f x => f.value? ρ = some x) fs xs) : (column fs).IsColumn ρ xs := by
  refine ⟨fs.flatMap rows, rfl, ?_⟩
  induction h with
  | nil => exact .nil
  | cons hf _ ih =>
    obtain ⟨g, hg, hnumber⟩ := exists_rows hf
    rw [List.flatMap_cons, hg]
    exact .cons hnumber ih

end Values

/-! ## Literals -/

section Literals

open Float.Model Float.Model.UnpackedFloat

variable {ρ : String → Option ℝ}

/-- A machine number that equals zero is zero, with either sign. -/
theorem eq_zero_of_rational? {x : Float} {q : ℚ} (h : (Num.float x).rational? = some q) (hx : (x == 0) = true) :
    q = 0 := by
  have hequal : (x == 0) = x.toModel.unpack.beq (.zero .positive) := rfl
  obtain ⟨d, hd, -⟩ := Option.map_eq_some_iff.1 h
  obtain ⟨s, hs⟩ | ⟨s, m, e, hm, hs, -⟩ := unpack_cases hd
  · -- neither the number nor its opposite is below zero
    have hopposite : (-x).toModel.unpack = (pack x.toModel.unpack.neg).unpack := rfl
    have hle : ¬q < 0 := by
      rw [← Num.isNegative_iff h, Num.isNegative, decide_eq_true_eq, lt_zero_iff_unpack, hs]
      cases s <;> decide
    have hge : ¬-q < 0 := by
      rw [← Num.isNegative_iff (Num.rational?_negate h), Num.negate, Num.isNegative, decide_eq_true_eq,
        lt_zero_iff_unpack, hopposite, hs]
      cases s <;> decide
    linarith
  · have hfinite : (finite s m e hm).beq (.zero .positive) = false := by cases s <;> rfl
    rw [hequal, hs, hfinite] at hx
    cases hx

/-- The form of a literal stands for the exact value of the literal. -/
theorem isNumber_ofNum {n : Num} {q : ℚ} (h : n.rational? = some q) : (ofNum n).IsNumber ρ q := by
  cases n with
  | int k =>
    rw [Num.rational?_int, Option.some_inj] at h
    subst h
    exact ⟨rfl, (value?_int k).trans (by simp)⟩
  | float x =>
    obtain ⟨d, hd, -⟩ := Option.map_eq_some_iff.1 h
    have hnan : x.isNaN = false := Num.isNaN_of_rational? h
    rw [ofNum, ofFloat, hnan, isInf_of_ofFloat? hd]
    simp only [Bool.false_eq_true, if_false]
    split
    · rename_i hx
      obtain rfl := eq_zero_of_rational? h hx
      have hzero : (Num.float 0.0).rational? = some 0 := by
        simp [Num.rational?, Num.exactValue?, Num.ofFloat?_zero, Dyadic.value, Dyadic.signed]
      exact ⟨rfl, by simp [hzero]⟩
    · exact ⟨rfl, by simp [h]⟩

end Literals

/-! ## Substitution -/

section Substitution

variable (σ : String → Option Form)

mutual

/-- The form with others in the place of symbols, all at once. -/
@[simp] def instantiate : Form → Form
  | .symbol x => (σ x).getD (.symbol x)
  | .sum ts => .sum (instantiateAll ts)
  | .product fs => .product (instantiateAll fs)
  | .power a b => .power (instantiate a) (instantiate b)
  | .modulo a b => .modulo (instantiate a) (instantiate b)
  | .apply fn a => .apply fn (instantiate a)
  | .unknown name as => .unknown name (instantiateAll as)
  | .matrix rows => .matrix (instantiateAll rows)
  | .interval a b => .interval (instantiate a) (instantiate b)
  | .finiteSet a => .finiteSet (instantiate a)
  | .ratio q => .ratio q
  | .float x => .float x
  | .constant c => .constant c
  | .emptySet => .emptySet

/-- The forms with others in the place of symbols. -/
@[simp] def instantiateAll : List Form → List Form
  | [] => []
  | f :: fs => instantiate f :: instantiateAll fs

end

/-- What symbols stand for where some of them stand for what others do in their place. -/
noncomputable def assigned (ρ : String → Option ℝ) (x : String) : Option ℝ :=
  match σ x with
  | some s => s.value? ρ
  | none => ρ x

variable {σ} {ρ : String → Option ℝ}

theorem isMatrix_instantiate (hσ : ∀ x s, σ x = some s → s.isMatrix = false) (f : Form) :
    (f.instantiate σ).isMatrix = f.isMatrix := by
  cases f with
  | symbol x =>
    rw [instantiate]
    cases hx : σ x with
    | none => rfl
    | some s => exact hσ x s hx
  | _ => rfl

theorem any_isMatrix_instantiateAll (hσ : ∀ x s, σ x = some s → s.isMatrix = false) (fs : List Form) :
    (instantiateAll σ fs).any isMatrix = fs.any isMatrix := by
  induction fs with
  | nil => rfl
  | cons f fs ih => rw [instantiateAll, List.any_cons, List.any_cons, isMatrix_instantiate hσ, ih]

mutual

/-- **A form with others put in stands for what it stands for where the symbols stand for what was put in.** -/
theorem value?_instantiate (hσ : ∀ x s, σ x = some s → s.isMatrix = false) :
    ∀ f : Form, (f.instantiate σ).value? ρ = f.value? (assigned σ ρ)
  | .symbol x => by
    rw [instantiate, value?, assigned]
    cases σ x <;> simp
  | .sum ts => by rw [instantiate, value?, value?, values?_instantiateAll hσ]
  | .product fs => by rw [instantiate, value?, value?, values?_instantiateAll hσ]
  | .power a b => by rw [instantiate, value?, value?, value?_instantiate hσ a, value?_instantiate hσ b]
  | .modulo a b => by rw [instantiate, value?, value?, value?_instantiate hσ a, value?_instantiate hσ b]
  | .apply fn a => by rw [instantiate, value?, value?, value?_instantiate hσ a]
  | .matrix rows => by
    rw [instantiate, value?, value?, any_isMatrix_instantiateAll hσ, values?_instantiateAll hσ]
  | .ratio _ | .float _ | .constant _ | .unknown .. | .interval .. | .emptySet | .finiteSet _ => by
    rw [instantiate, value?, value?]

theorem values?_instantiateAll (hσ : ∀ x s, σ x = some s → s.isMatrix = false) :
    ∀ fs : List Form, values? ρ (instantiateAll σ fs) = values? (assigned σ ρ) fs
  | [] => by simp only [instantiateAll, values?]
  | f :: fs => by
    simp only [instantiateAll, values?, value?_instantiate hσ f, values?_instantiateAll hσ fs]

end

theorem isNumber_instantiate (hσ : ∀ x s, σ x = some s → s.isMatrix = false) {f : Form} {x : ℝ} :
    (f.instantiate σ).IsNumber ρ x ↔ f.IsNumber (assigned σ ρ) x := by
  rw [IsNumber, IsNumber, isMatrix_instantiate hσ, value?_instantiate hσ]

/-- The same of columns. -/
theorem isColumn_instantiate (hσ : ∀ x s, σ x = some s → s.isMatrix = false) {f : Form} {xs : List ℝ}
    (h : f.IsColumn (assigned σ ρ) xs) : (f.instantiate σ).IsColumn ρ xs := by
  obtain ⟨rows, rfl, hrows⟩ := h
  refine ⟨instantiateAll σ rows, rfl, ?_⟩
  induction hrows with
  | nil => exact .nil
  | cons hf _ ih => exact .cons ((isNumber_instantiate hσ).2 hf) ih

end Substitution

end Form

end ExprCalculus
