import ExprCalculus.Proofs.Evaluation.RealNumbers
import ExprCalculus.Proofs.Form.Meaning

/-!
# Builders that keep the meaning

What computer algebra is relied on for: it may make another form than the one that is asked for, as long as that stands
for the same number or column wherever the one asked for stands for one.  That is meant of exact reductions: what rounds
machine numbers on the way does not keep their meaning.  Then the forms of operations and functions, which are put
together from fewer kinds of nodes, stand for what evaluation comes to.

* `Form.Builder.KeepsMeaning` — forms may be reduced, their meaning may not change.
* `Form.makes_ofOperation`, `Form.makes_ofFunction`, … — operations and functions of numbers.
* `Form.shows_ofOperation`, `Form.shows_negative` — operations on numbers and columns.
* `Form.keepsMeaning_literal` — the forms that are asked for keep the meaning.
-/

namespace ExprCalculus.Form

open Reals

/-! ## What is asked of a builder -/

/-- What is made of parts stands for a number, and is no column if there is none among the parts. -/
def Makes (parts : List Form) (ρ : String → Option ℝ) (made : Built) (x : ℝ) : Prop :=
  ∃ f, made = .ok f ∧ f.value? ρ = some x ∧ ((∀ p ∈ parts, p.isMatrix = false) → f.isMatrix = false)

/-- What is made of parts stands for the number that `w` stands for. -/
def KeepsValue (parts : List Form) (w : Form) (made : Built) : Prop :=
  ∀ ρ x, w.value? ρ = some x → Makes parts ρ made x

/-- What is made is a column of the numbers that `w` is a column of. -/
def KeepsColumn (w : Form) (made : Built) : Prop := ∀ ρ xs, w.IsColumn ρ xs → ∃ f, made = .ok f ∧ f.IsColumn ρ xs

/-- Forms for symbols, each of which is named once and none of which gets a column. -/
structure Replaces (σ : List (String × Form)) : Prop where
  nodup : (σ.map Prod.fst).Nodup
  numbers : ∀ p ∈ σ, p.2.isMatrix = false

theorem Replaces.isMatrix {σ : List (String × Form)} (h : Replaces σ) (x : String) (s : Form)
    (hs : valueOf? σ x = some s) : s.isMatrix = false := by
  obtain ⟨p, hp, rfl⟩ := Option.map_eq_some_iff.1 hs
  exact h.numbers p (List.mem_reverse.1 (List.mem_of_find?_eq_some hp))

/-- Whether what a builder makes means the same as what is asked for.  Columns are added row by row, and multiplied row
by row with what is no column. -/
structure Builder.KeepsMeaning (mk : Builder) : Prop where
  sum a b : KeepsValue [a, b] (.sum [a, b]) (mk.sum a b)
  product a b : KeepsValue [a, b] (.product [a, b]) (mk.product a b)
  power a b : KeepsValue [a, b] (.power a b) (mk.power a b)
  modulo a b : KeepsValue [a, b] (.modulo a b) (mk.modulo a b)
  apply fn a : KeepsValue [a] (.apply fn a) (mk.apply fn a)
  logarithm b a :
    KeepsValue [b, a] (.product [.apply .ln a, .power (.apply .ln b) (.int (-1))]) (mk.logarithm b a)
  substitute σ f : Replaces σ → KeepsValue [f] (f.instantiate (valueOf? σ)) (mk.substitute σ f)
  column fs : KeepsColumn (Form.column fs) (mk.column fs)
  sum_columns as bs : as.length = bs.length →
    KeepsColumn (.matrix (List.zipWith (fun a b => .sum [a, b]) as bs)) (mk.sum (.matrix as) (.matrix bs))
  product_column a bs : a.isMatrix = false →
    KeepsColumn (.matrix (bs.map fun b => .product [a, b])) (mk.product a (.matrix bs))
  column_product as b : b.isMatrix = false →
    KeepsColumn (.matrix (as.map fun a => .product [a, b])) (mk.product (.matrix as) b)
  substitute_column σ f : Replaces σ → KeepsColumn (f.instantiate (valueOf? σ)) (mk.substitute σ f)

variable {mk : Builder} {ρ : String → Option ℝ} {a b : Form} {x y z : ℝ}

/-! ## Operations and functions of numbers -/

section Numbers

/-- What is made is no column if there is none among other parts either. -/
theorem Makes.of_parts {parts parts' : List Form} {made : Built} (h : Makes parts ρ made x)
    (hparts : (∀ p ∈ parts', p.isMatrix = false) → ∀ p ∈ parts, p.isMatrix = false) : Makes parts' ρ made x := by
  obtain ⟨f, hf, hx, hmatrix⟩ := h
  exact ⟨f, hf, hx, fun hnone => hmatrix (hparts hnone)⟩

theorem makes_negative (hmk : mk.KeepsMeaning) (ha : a.value? ρ = some x) :
    Makes [a] ρ (mk.product (.int (-1)) a) (-x) := by
  have hvalue : (Form.product [.int (-1), a]).value? ρ = some (-x) := by
    rw [value?_product (value?_int _) ha]
    simp
  exact (hmk.product _ _ _ _ hvalue).of_parts (by simp [isMatrix])

theorem makes_reciprocal (hmk : mk.KeepsMeaning) (hb : b.value? ρ = some y) (hy : y ≠ 0) :
    Makes [b] ρ (mk.power b (.int (-1))) y⁻¹ :=
  (hmk.power _ _ _ _ (value?_reciprocal hb hy)).of_parts (by simp [isMatrix])

/-- **The form of an operation stands for the result of the operation**: differences through multiples by minus one,
quotients through powers to minus one. -/
theorem makes_ofOperation (hmk : mk.KeepsMeaning) {op : BinOp} (ha : a.value? ρ = some x) (hb : b.value? ρ = some y)
    (h : calculus.operation? op x y = some z) : Makes [a, b] ρ (ofOperation mk op a b) z := by
  cases op with
  | plus =>
    cases h
    exact hmk.sum _ _ _ _ (value?_sum ha hb)
  | minus =>
    cases h
    obtain ⟨c, hc, hcy, hcmatrix⟩ := makes_negative hmk hb
    have hform : ofOperation mk .minus a b = mk.sum a c := by simp only [ofOperation, hc]
    rw [hform, sub_eq_add_neg]
    exact (hmk.sum _ _ _ _ (value?_sum ha hcy)).of_parts
      (by simpa using fun ha hb => ⟨ha, hcmatrix (by simpa using hb)⟩)
  | times =>
    cases h
    exact hmk.product _ _ _ _ (value?_product ha hb)
  | divide =>
    obtain ⟨hy, rfl⟩ := divide_iff.1 (combine_iff.2 h)
    obtain ⟨c, hc, hcy, hcmatrix⟩ := makes_reciprocal hmk hb hy
    have hform : ofOperation mk .divide a b = mk.product a c := by simp only [ofOperation, hc]
    rw [hform, div_eq_mul_inv]
    exact (hmk.product _ _ _ _ (value?_product ha hcy)).of_parts
      (by simpa using fun ha hb => ⟨ha, hcmatrix (by simpa using hb)⟩)
  | power => exact hmk.power _ _ _ _ ((value?_power ha hb).trans h)
  | modulo => exact hmk.modulo _ _ _ _ ((value?_modulo ha hb).trans h)

/-- A root of an index is a power, a square root included. -/
theorem makes_root (hmk : mk.KeepsMeaning) {q : Ratio} (ha : a.value? ρ = some x) (hq : q.value? = some y)
    (h : calculus.pow x y = some z) : Makes [a] ρ (mk.power a (.ratio q)) z := by
  have hexponent : (Form.ratio q).value? ρ = some y := by rw [value?, hq]
  exact (hmk.power _ _ _ _ ((value?_power ha hexponent).trans h)).of_parts (by simp [isMatrix])

theorem value?_make {n : Nat} (hn : n ≠ 0) : (Ratio.make 1 n).value? = some (1 / (n : ℝ)) := by
  simp [Ratio.make, Ratio.value?, hn]

theorem makes_ofFunction (hmk : mk.KeepsMeaning) {fn : Fn} (ha : a.value? ρ = some x)
    (h : calculus.function? fn x = some y) : Makes [a] ρ (ofFunction mk fn a) y := by
  unfold ofFunction
  split
  · rename_i hfn
    subst hfn
    obtain ⟨hx, rfl⟩ := only_eq_some.1 h
    have hhalf : (⟨1, 2⟩ : Ratio).value? = some (1 / 2 : ℝ) := by simp [Ratio.value?]
    have hbase : PowBase x (1 / 2) := hx.lt_or_eq.imp_right fun hzero => .inl ⟨hzero.symm, by norm_num⟩
    exact makes_root hmk ha hhalf (only_eq_some.2 ⟨hbase, (Real.sqrt_eq_rpow x).symm⟩)
  · exact hmk.apply _ _ _ _ ((value?_apply ha).trans h)

/-- A logarithm to a base is a quotient of natural logarithms. -/
theorem makes_logarithm (hmk : mk.KeepsMeaning) {u w : ℝ} (ha : a.value? ρ = some x) (hb : b.value? ρ = some y)
    (hu : calculus.ln x = some u) (hw : calculus.ln y = some w) (hzero : w ≠ 0) :
    Makes [b, a] ρ (mk.logarithm b a) (u / w) := by
  have hlna : (Form.apply .ln a).value? ρ = some u := (value?_apply ha).trans hu
  have hlnb : (Form.apply .ln b).value? ρ = some w := (value?_apply hb).trans hw
  rw [div_eq_mul_inv]
  exact hmk.logarithm _ _ _ _ (value?_product hlna (value?_reciprocal hlnb hzero))

theorem makes_substitute (hmk : mk.KeepsMeaning) {σ : List (String × Form)} (hσ : Replaces σ)
    (ha : a.value? (assigned (valueOf? σ) ρ) = some x) : Makes [a] ρ (mk.substitute σ a) x := by
  rw [← value?_instantiate hσ.isMatrix] at ha
  exact hmk.substitute σ a hσ ρ x ha

end Numbers

/-! ## Operations on numbers and columns -/

section Columns

variable {as bs : List Form} {xs ys : List ℝ}

/-- Whether a form stands for a value as what the value is: a number, or a vector as a column. -/
def Shows (ρ : String → Option ℝ) (f : Form) : Value ℝ → Prop
  | .real x => f.IsNumber ρ x
  | .vector xs => xs ≠ [] ∧ f.IsColumn ρ xs
  | .interval _ => False

theorem Makes.isNumber {parts : List Form} {made : Built} (h : Makes parts ρ made x)
    (hparts : ∀ p ∈ parts, p.isMatrix = false) : ∃ f, made = .ok f ∧ f.IsNumber ρ x := by
  obtain ⟨f, hf, hx, hmatrix⟩ := h
  exact ⟨f, hf, hmatrix hparts, hx⟩

theorem isColumn_map {g : Form → Form} {k : ℝ → ℝ} (h : ∀ f x, f.IsNumber ρ x → (g f).IsNumber ρ (k x))
    (hrows : List.Forall₂ (IsNumber ρ) as xs) : (Form.matrix (as.map g)).IsColumn ρ (xs.map k) := by
  refine ⟨as.map g, rfl, ?_⟩
  rw [List.forall₂_map_left_iff, List.forall₂_map_right_iff]
  exact hrows.imp h

theorem isColumn_zipWith_sum (ha : List.Forall₂ (IsNumber ρ) as xs) (hb : List.Forall₂ (IsNumber ρ) bs ys) :
    (Form.matrix (List.zipWith (fun a b => .sum [a, b]) as bs)).IsColumn ρ (List.zipWith (· + ·) xs ys) := by
  refine ⟨_, rfl, ?_⟩
  induction ha generalizing bs ys with
  | nil => exact .nil
  | cons hx _ ih =>
    cases hb with
    | nil => exact .nil
    | cons hy hb => exact .cons ⟨rfl, value?_sum hx.2 hy.2⟩ (ih hb)

theorem isColumn_negative (hmk : mk.KeepsMeaning) (ha : a.IsColumn ρ xs) :
    ∃ f, mk.product (.int (-1)) a = .ok f ∧ f.IsColumn ρ (xs.map (-·)) := by
  obtain ⟨rows, rfl, hrows⟩ := ha
  refine hmk.product_column _ _ rfl _ _ (isColumn_map (fun f x hf => ⟨rfl, ?_⟩) hrows)
  rw [value?_product (value?_int _) hf.2]
  simp

theorem isColumn_sum (hmk : mk.KeepsMeaning) (ha : a.IsColumn ρ xs) (hb : b.IsColumn ρ ys)
    (hlength : xs.length = ys.length) : ∃ f, mk.sum a b = .ok f ∧ f.IsColumn ρ (List.zipWith (· + ·) xs ys) := by
  obtain ⟨as, rfl, hrows⟩ := ha
  obtain ⟨bs, rfl, hrows'⟩ := hb
  have hrowCount : as.length = bs.length := hrows.length_eq.trans (hlength.trans hrows'.length_eq.symm)
  exact hmk.sum_columns _ _ hrowCount _ _ (isColumn_zipWith_sum hrows hrows')

theorem isColumn_product (hmk : mk.KeepsMeaning) (ha : a.IsColumn ρ xs) (hb : b.IsNumber ρ y) :
    ∃ f, mk.product a b = .ok f ∧ f.IsColumn ρ (xs.map (· * y)) := by
  obtain ⟨rows, rfl, hrows⟩ := ha
  exact hmk.column_product _ _ hb.1 _ _ (isColumn_map (fun f x hf => ⟨rfl, value?_product hf.2 hb.2⟩) hrows)

/-- Evaluation scales a vector from the right, also where the number stands before it. -/
theorem isColumn_product_left (hmk : mk.KeepsMeaning) (ha : a.IsNumber ρ x) (hb : b.IsColumn ρ ys) :
    ∃ f, mk.product a b = .ok f ∧ f.IsColumn ρ (ys.map (· * x)) := by
  obtain ⟨rows, rfl, hrows⟩ := hb
  refine hmk.product_column _ _ ha.1 _ _ (isColumn_map (fun f y hf => ⟨rfl, ?_⟩) hrows)
  rw [value?_product ha.2 hf.2, mul_comm]

/-- The quotients of components are products with one reciprocal, as there is a component. -/
theorem eq_map_of_divideComponents {qs : List ℝ} (hxs : xs ≠ []) (h : Value.divideComponents y xs = .ok qs) :
    y ≠ 0 ∧ qs = xs.map (· * y⁻¹) := by
  have hquotients : List.Forall₂ (fun x q => y ≠ 0 ∧ x * y⁻¹ = q) xs qs :=
    (divideComponents_forall₂ h).imp fun x q hq => by rwa [divide_iff, div_eq_mul_inv] at hq
  constructor
  · cases hquotients with
    | nil => exact absurd rfl hxs
    | cons hq _ => exact hq.1
  · have hequal : List.Forall₂ Eq (xs.map (· * y⁻¹)) qs :=
      List.forall₂_map_left_iff.2 (hquotients.imp fun x q => And.right)
    rw [List.forall₂_eq_eq_eq] at hequal
    exact hequal.symm

theorem shows_quotient (hmk : mk.KeepsMeaning) {v : Value ℝ} (ha : a.Shows ρ (.vector xs)) (hb : b.IsNumber ρ y)
    (h : Value.combine .divide (.vector xs) (.real y) = .ok v) :
    ∃ f, ofOperation mk .divide a b = .ok f ∧ f.Shows ρ v := by
  obtain ⟨hxs, ha⟩ := ha
  cases hqs : Value.divideComponents y xs with
  | error fault =>
    simp only [Value.combine, hqs] at h
    cases h
  | ok qs =>
    simp only [Value.combine, hqs] at h
    cases h
    obtain ⟨hy, rfl⟩ := eq_map_of_divideComponents hxs hqs
    obtain ⟨c, hc, hreciprocal⟩ := (makes_reciprocal hmk hb.2 hy).isNumber (by simpa using hb.1)
    obtain ⟨f, hf, hcolumn⟩ := isColumn_product hmk ha hreciprocal
    refine ⟨f, ?_, by simpa using hxs, hcolumn⟩
    simp only [ofOperation, hc, hf]

theorem componentwise_eq_ok_iff {k : ℝ → ℝ → ℝ} {v : Value ℝ} :
    Value.componentwise k xs ys = .ok v ↔ xs.length = ys.length ∧ v = .vector (List.zipWith k xs ys) := by
  unfold Value.componentwise
  split <;> simp [*, eq_comm]

/-- Sums and differences of vectors; a difference adds the negative. -/
theorem shows_sum (hmk : mk.KeepsMeaning) {op : BinOp} {v : Value ℝ} (hop : op = .plus ∨ op = .minus)
    (ha : a.Shows ρ (.vector xs)) (hb : b.Shows ρ (.vector ys))
    (h : Value.combine op (.vector xs) (.vector ys) = .ok v) : ∃ f, ofOperation mk op a b = .ok f ∧ f.Shows ρ v := by
  obtain ⟨hxs, ha⟩ := ha
  obtain ⟨hys, hb⟩ := hb
  obtain rfl | rfl := hop
  · obtain ⟨hlength, rfl⟩ := componentwise_eq_ok_iff.1 h
    obtain ⟨f, hf, hcolumn⟩ := isColumn_sum hmk ha hb hlength
    exact ⟨f, hf, by simp [hxs, hys], hcolumn⟩
  · obtain ⟨hlength, rfl⟩ := componentwise_eq_ok_iff.1 h
    obtain ⟨c, hc, hnegative⟩ := isColumn_negative hmk hb
    obtain ⟨f, hf, hcolumn⟩ := isColumn_sum hmk ha hnegative (by simpa using hlength)
    have hdifference : List.zipWith (· + ·) xs (ys.map (-·)) = List.zipWith (· - ·) xs ys := by
      simp [List.zipWith_map_right, sub_eq_add_neg]
    refine ⟨f, ?_, by simp [hxs, hys], hdifference ▸ hcolumn⟩
    simp only [ofOperation, hc, hf]

/-- **The form of an operation in the domain of vectors shows the result of the operation.** -/
theorem shows_ofOperation (hmk : mk.KeepsMeaning) {op : BinOp} {u w v : Value ℝ} (ha : a.Shows ρ u) (hb : b.Shows ρ w)
    (h : combineUnder op u w (.domain .vector) = .ok v) : ∃ f, ofOperation mk op a b = .ok f ∧ f.Shows ρ v := by
  rw [combineUnder] at h
  split at h
  case isFalse => cases h
  rename_i hoperands
  rw [Outcome.ofArithmetic_eq_ok_iff] at h
  cases u with
  | interval => exact ha.elim
  | real x =>
    cases w with
    | interval => exact hb.elim
    | real y =>
      obtain ⟨z, hz, rfl⟩ := valueCombine_iff.1 h
      exact (makes_ofOperation hmk ha.2 hb.2 hz).isNumber (by simpa using ⟨ha.1, hb.1⟩)
    | vector ys =>
      cases op with
      | times =>
        cases h
        obtain ⟨f, hf, hcolumn⟩ := isColumn_product_left hmk ha hb.2
        exact ⟨f, hf, by simpa using hb.1, hcolumn⟩
      | plus | minus | divide | power | modulo => cases hoperands
  | vector xs =>
    cases w with
    | interval => exact hb.elim
    | real y =>
      cases op with
      | times =>
        cases h
        obtain ⟨f, hf, hcolumn⟩ := isColumn_product hmk ha.2 hb
        exact ⟨f, hf, by simpa using ha.1, hcolumn⟩
      | divide => exact shows_quotient hmk ha hb h
      | plus | minus | power | modulo => cases hoperands
    | vector ys =>
      cases op with
      | plus => exact shows_sum hmk (.inl rfl) ha hb h
      | minus => exact shows_sum hmk (.inr rfl) ha hb h
      | times | divide | power | modulo => cases hoperands

theorem shows_negative (hmk : mk.KeepsMeaning) {u v : Value ℝ} (ha : a.Shows ρ u) (h : u.negate = .ok v) :
    ∃ f, mk.product (.int (-1)) a = .ok f ∧ f.Shows ρ v := by
  cases u with
  | interval => exact ha.elim
  | real x =>
    cases h
    exact (makes_negative hmk ha.2).isNumber (by simpa using ha.1)
  | vector xs =>
    cases h
    obtain ⟨f, hf, hcolumn⟩ := isColumn_negative hmk ha.2
    exact ⟨f, hf, by simpa using ha.1, hcolumn⟩

theorem shows_substitute (hmk : mk.KeepsMeaning) {σ : List (String × Form)} (hσ : Replaces σ) {v : Value ℝ}
    (ha : a.Shows (assigned (valueOf? σ) ρ) v) : ∃ f, mk.substitute σ a = .ok f ∧ f.Shows ρ v := by
  cases v with
  | interval => exact ha.elim
  | real x => exact (makes_substitute hmk hσ ha.2).isNumber (by simpa using ha.1)
  | vector xs =>
    obtain ⟨hxs, ha⟩ := ha
    obtain ⟨f, hf, hcolumn⟩ := hmk.substitute_column σ a hσ ρ xs (isColumn_instantiate hσ.isMatrix ha)
    exact ⟨f, hf, hxs, hcolumn⟩

end Columns

/-! ## Forms as they are asked for -/

/-- A sum as it stands; that of two columns row by row. -/
def plainSum : Form → Form → Form
  | .matrix as, .matrix bs => .matrix (List.zipWith (fun a b => .sum [a, b]) as bs)
  | a, b => .sum [a, b]

/-- A product as it stands; that of a column and what is none row by row. -/
def plainProduct : Form → Form → Form
  | .matrix as, .matrix bs => .product [.matrix as, .matrix bs]
  | .matrix as, b => .matrix (as.map fun a => .product [a, b])
  | a, .matrix bs => .matrix (bs.map fun b => .product [a, b])
  | a, b => .product [a, b]

/-- Makes what is asked for and reduces nothing. -/
def literal : Builder where
  sum a b := .ok (plainSum a b)
  product a b := .ok (plainProduct a b)
  power a b := .ok (.power a b)
  modulo a b := .ok (.modulo a b)
  apply fn a := .ok (.apply fn a)
  logarithm b a := .ok (.product [.apply .ln a, .power (.apply .ln b) (.int (-1))])
  interval a b := .ok (.interval a b)
  column fs := .ok (column fs)
  substitute σ f := .ok (f.instantiate (valueOf? σ))

theorem keepsValue_self {parts : List Form} {w : Form} (hw : w.isMatrix = false) : KeepsValue parts w (.ok w) :=
  fun _ _ h => ⟨w, rfl, h, fun _ => hw⟩

/-- A column among the parts may make a column, of the number in a row of its own. -/
theorem makes_row {parts : List Form} {p w : Form} (hp : p ∈ parts) (hcolumn : p.isMatrix = true)
    (hw : w.IsNumber ρ x) : Makes parts ρ (.ok (.matrix [w])) x := by
  refine ⟨.matrix [w], rfl, value?_matrix_iff.2 ⟨w, rfl, hw⟩, fun hparts => ?_⟩
  rw [hparts p hp] at hcolumn
  cases hcolumn

theorem keepsValue_plainSum (a b : Form) : KeepsValue [a, b] (.sum [a, b]) (.ok (plainSum a b)) := by
  fun_cases plainSum a b with
  | case1 as bs =>
    intro ρ z h
    obtain ⟨x, y, ha, hb, rfl⟩ := value?_sum_iff.1 h
    obtain ⟨f, rfl, hf⟩ := value?_matrix_iff.1 ha
    obtain ⟨g, rfl, hg⟩ := value?_matrix_iff.1 hb
    exact makes_row (.head _) rfl ⟨rfl, value?_sum hf.2 hg.2⟩
  | case2 => exact keepsValue_self rfl

theorem keepsValue_plainProduct (a b : Form) : KeepsValue [a, b] (.product [a, b]) (.ok (plainProduct a b)) := by
  fun_cases plainProduct a b with
  | case1 => exact keepsValue_self rfl
  | case2 as b =>
    intro ρ z h
    obtain ⟨x, y, ha, hb, rfl⟩ := value?_product_iff.1 h
    obtain ⟨f, rfl, hf⟩ := value?_matrix_iff.1 ha
    exact makes_row (.head _) rfl ⟨rfl, value?_product hf.2 hb⟩
  | case3 a bs =>
    intro ρ z h
    obtain ⟨x, y, ha, hb, rfl⟩ := value?_product_iff.1 h
    obtain ⟨g, rfl, hg⟩ := value?_matrix_iff.1 hb
    exact makes_row (.tail _ (.head _)) rfl ⟨rfl, value?_product ha hg.2⟩
  | case4 => exact keepsValue_self rfl

theorem keepsMeaning_literal : literal.KeepsMeaning where
  sum := keepsValue_plainSum
  product := keepsValue_plainProduct
  power a b := keepsValue_self rfl
  modulo a b := keepsValue_self rfl
  apply fn a := keepsValue_self rfl
  logarithm b a := keepsValue_self rfl
  substitute σ f hσ ρ x h := ⟨_, rfl, h, fun hf => by simpa [isMatrix_instantiate hσ.isMatrix] using hf⟩
  column fs ρ xs h := ⟨_, rfl, h⟩
  sum_columns as bs hlength ρ xs h := ⟨_, rfl, h⟩
  product_column a bs ha ρ xs h := by
    cases a with
    | matrix => cases ha
    | _ => exact ⟨_, rfl, h⟩
  column_product as b hb ρ xs h := by
    cases b with
    | matrix => cases hb
    | _ => exact ⟨_, rfl, h⟩
  substitute_column σ f hσ ρ xs h := ⟨_, rfl, h⟩

end ExprCalculus.Form
