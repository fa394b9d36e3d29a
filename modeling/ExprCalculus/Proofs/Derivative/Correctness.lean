import ExprCalculus.Proofs.Derivative.Series

/-!
# The derivative of a tree is its derivative

A tree of literals, variables, operations and default functions has a derivative, which is such a tree again
and stands for the derivative of what the tree stands for.

* `Expr.derive_binary`, `Expr.derive_apply` and their companions — the derivative is put together by rules.
* `Calculus.D_of_not_mem` — a tree in which a variable is not free is constant, which the shorter rules for
  powers rely on.
* `Calculus.operationRule_standsFor`, `Calculus.functionRule_standsFor` — the rules are right.
* `Calculus.derive_value` — the derivative stands for the derivative of the value.
-/

namespace ExprCalculus

namespace Expr

variable {a b e da db : Expr}

/-! ## Derivatives by rules -/

/-- The derivative of an operation, from its operands and their derivatives. -/
def operationRule (v : String) (op : BinOp) (a b da db : Expr) : Expr :=
  match op with
  | .plus => plus da db
  | .minus => minus da db
  | .times => productRule a b da db
  | .divide => quotientRule a b da db
  | .modulo => minus da (times (applyTo .floor (divide a b)) db)
  | .power =>
    if isFreeOf v b then powerRule a b da
    else if isFreeOf v a then exponentialRule a b db
    else generalPowerRule a b da db

theorem derive_binary {v : String} (op : BinOp) (hda : derive v a = .ok da) (hdb : derive v b = .ok db) :
    derive v (.binary op a b) = .ok (operationRule v op a b da db) := by
  cases op with
  | power =>
    simp only [derive, operationRule]
    split
    · rw [hda]
      rfl
    · split
      · rw [hdb]
        rfl
      · simp [both, hda, hdb]
  | _ => simp [derive, both, hda, hdb, operationRule]

theorem derive_neg {v : String} (hda : derive v a = .ok da) : derive v (.neg a) = .ok (.neg da) := by
  show (derive v a).map Expr.neg = _
  rw [hda]
  rfl

/-- The rule for a step function does not look at the argument. -/
theorem derive_apply {v : String} (fn : Fn) (hda : derive v a = .ok da) :
    derive v (.apply fn a) = .ok (functionRule fn a da) := by
  show (if Fn.isStep fn then Except.ok (int 0) else (derive v a).map (functionRule fn a)) = _
  rw [hda]
  cases fn <;> rfl

theorem derive_log {v : String} (hdb : derive v b = .ok db) (hda : derive v a = .ok da) :
    derive v (.log b a) = .ok (logRule b a db da) := by
  show both (derive v a) (derive v b) (fun da db => logRule b a db da) = _
  rw [hda, hdb]
  rfl

theorem derive_root {v : String} (n : Nat) (hda : derive v a = .ok da) :
    derive v (.root n a) = .ok (rootRule n a da) := by
  show (derive v a).map (rootRule n a) = _
  rw [hda]
  rfl

/-! ## Elementary trees -/

@[simp] theorem elementary_number (v : Num) : Elementary (.number v) := .number v

@[simp] theorem elementary_fixed_iff : Elementary (.fixed e) ↔ Elementary e :=
  ⟨fun h => by cases h; assumption, .fixed⟩

@[simp] theorem elementary_binary_iff {op : BinOp} : Elementary (.binary op a b) ↔
    Elementary a ∧ Elementary b ∧ (op = .power → ∀ x, b ≠ .number (.float x)) :=
  ⟨fun h => by cases h; exact ⟨‹_›, ‹_›, ‹_›⟩, fun h => .binary op h.1 h.2.1 h.2.2⟩

@[simp] theorem elementary_neg_iff : Elementary (.neg a) ↔ Elementary a :=
  ⟨fun h => by cases h; assumption, .neg⟩

@[simp] theorem elementary_apply_iff {fn : Fn} : Elementary (.apply fn a) ↔ Elementary a :=
  ⟨fun h => by cases h; assumption, .apply fn⟩

@[simp] theorem elementary_inArgument_iff : Elementary e.inArgument ↔ Elementary e := by
  unfold inArgument
  split <;> simp

@[simp] theorem elementary_argumentValue_iff : Elementary e.argumentValue ↔ Elementary e := by
  unfold argumentValue
  split <;> simp

theorem Elementary.powerRule (ha : Elementary a) (hb : Elementary b) (hexp : ∀ x, b ≠ .number (.float x))
    (hda : Elementary da) : Elementary (powerRule a b da) := by
  cases b with
  | number n =>
    cases n with
    | int n => simp [Expr.powerRule, Num.pred, ha, hda]
    | float x => exact absurd rfl (hexp x)
  | _ => simp [Expr.powerRule, ha, hb, hda]

theorem Elementary.functionRule {fn : Fn} (ha : Elementary a) (hda : Elementary da) :
    Elementary (functionRule fn a da) := by
  cases fn with
  | sqrt => exact .powerRule (by simpa using ha) (by simp) (by simp) hda
  | ln => simp [Expr.functionRule, lnRule, ha, hda]
  | sin => simp [Expr.functionRule, sinRule, applyTo, ha, hda]
  | cos => simp [Expr.functionRule, cosRule, applyTo, ha, hda]
  | tan => simp [Expr.functionRule, tanRule, quotientRule, sinRule, cosRule, applyTo, ha, hda]
  | arcsin | arccos => simp [Expr.functionRule, circleRoot, applyTo, ha, hda]
  | exp | arctan | abs | ceil | floor | sgn => simp [Expr.functionRule, applyTo, ha, hda]

theorem Elementary.operationRule (v : String) {op : BinOp} (ha : Elementary a) (hb : Elementary b)
    (hexp : op = .power → ∀ x, b ≠ .number (.float x)) (hda : Elementary da) (hdb : Elementary db) :
    Elementary (operationRule v op a b da db) := by
  cases op with
  | plus | minus => simp [Expr.operationRule, hda, hdb]
  | times => simp [Expr.operationRule, productRule, ha, hb, hda, hdb]
  | divide => simp [Expr.operationRule, quotientRule, ha, hb, hda, hdb]
  | modulo => simp [Expr.operationRule, applyTo, ha, hb, hda, hdb]
  | power =>
    simp only [Expr.operationRule]
    split
    · exact .powerRule ha hb (hexp rfl) hda
    · split
      · simpa [exponentialRule, applyTo, ha, hb, hdb] using hexp
      · simp [generalPowerRule, powerAsExponential, productRule, lnRule, applyTo, ha, hb, hda, hdb]

theorem Elementary.logRule (hb : Elementary b) (ha : Elementary a) (hdb : Elementary db) (hda : Elementary da) :
    Elementary (logRule b a db da) := by
  simp [Expr.logRule, quotientRule, lnRule, ha, hb, hda, hdb]

theorem Elementary.rootRule (n : Nat) (ha : Elementary a) (hda : Elementary da) : Elementary (rootRule n a da) :=
  .powerRule (by simpa using ha) (by simp) (by simp) hda

end Expr

namespace Calculus

open ExprCalculus.Expr

variable {K : Type*} [Field K] (M : Calculus K) (ρ : String → K)

/-! ## Arguments and quotients -/

@[simp] theorem value_inArgument (e : Expr) : M.value ρ e.inArgument = M.value ρ e := by
  unfold inArgument
  split <;> simp [value]

@[simp] theorem value_argumentValue (e : Expr) : M.value ρ e.argumentValue = M.value ρ e := by
  unfold argumentValue
  split <;> simp [value]

theorem D_div (u w : K) : M.D (u / w) = (M.D u * w - u * M.D w) / (w * w) := by
  rw [M.D.leibniz_div]
  simp only [smul_eq_mul]
  rw [inv_pow, inv_mul_eq_div, sq]
  ring

theorem D_one_div {n : K} (hn : M.D n = 0) : M.D (1 / n) = 0 := by
  rw [D_div, hn]
  simp

theorem D_half : M.D (1 / 2) = 0 := M.D_one_div (M.D.map_natCast 2)

/-! ## Constants -/

theorem D_literal (v : Num) : M.D (M.literal v) = 0 := by
  cases v with
  | int n => exact M.D.map_intCast n
  | float x => exact M.D_real x

/-- A power of constants is a constant. -/
theorem D_pow_constant {u c : K} (hu : M.D u = 0) (hc : M.D c = 0) (h : M.PowBase u c) :
    M.D (M.pow u c) = 0 := by
  rw [M.D_pow u c hc h (.inl hu), hu, mul_zero]

/-- An operation on constants is a constant. -/
theorem D_operation {op : BinOp} {u w : K} (hu : M.D u = 0) (hw : M.D w = 0) (h : M.AdmitsOperands op u w) :
    M.D (M.operation op u w) = 0 := by
  cases op with
  | plus => simp [operation, hu, hw]
  | minus => simp [operation, hu, hw]
  | times => simp [operation, hu, hw]
  | divide => simp [operation, D_div, hu, hw]
  | power => exact M.D_pow_constant hu hw h
  | modulo => simp [operation, M.D_floor, hu, hw]

/-- A default function of a constant is a constant. -/
theorem D_function {fn : Fn} {u : K} (hu : M.D u = 0) (h : M.AdmitsArgument fn u) :
    M.D (M.function fn u) = 0 := by
  cases fn with
  | exp => simp [function, M.D_exp, hu]
  | ln => simp [function, M.D_ln u h, hu]
  | sqrt => exact M.D_pow_constant hu M.D_half h
  | sin => simp [function, M.D_sin, hu]
  | cos => simp [function, M.D_cos, hu]
  | tan => simp [function, D_div, M.D_sin, M.D_cos, hu]
  | arcsin => simp [function, M.D_arcsin, hu]
  | arccos => simp [function, M.D_arccos, hu]
  | arctan => simp [function, M.D_arctan, hu]
  | abs => simp [function, M.D_sgn, hu]
  | ceil => exact M.D_ceil u
  | floor => exact M.D_floor u
  | sgn => exact M.D_sgn u

variable {M ρ}

/-- A tree in which the variable is not free stands for a constant. -/
theorem D_of_not_mem {v : String} (hρ : ∀ x, x ≠ v → M.D (ρ x) = 0) {e : Expr} (he : Elementary e)
    (ha : M.Admissible ρ e) (hv : v ∉ e.freeVars) : M.D (M.value ρ e) = 0 := by
  induction he with
  | number n => exact M.D_literal n
  | var x =>
    simp only [freeVars, List.mem_singleton] at hv
    exact hρ x (Ne.symm hv)
  | fixed _ ih => exact ih ha hv
  | binary op _ _ _ iha ihb =>
    simp only [freeVars, List.mem_append, not_or] at hv
    obtain ⟨ha1, ha2, ha3⟩ := ha
    exact M.D_operation (iha ha1 hv.1) (ihb ha2 hv.2) ha3
  | neg _ ih => simp [value, ih ha hv]
  | apply fn _ ih => exact M.D_function (ih ha.1 hv) ha.2
  | log _ _ ihb iha =>
    simp only [freeVars, List.mem_append, not_or] at hv
    obtain ⟨ha1, ha2, ha3, ha4, -⟩ := ha
    simp [value, D_div, M.D_ln _ ha3, M.D_ln _ ha4, ihb ha1 hv.1, iha ha2 hv.2]
  | root n _ ih => exact M.D_pow_constant (ih ha.1 hv) (M.D_one_div (M.D.map_natCast n)) ha.2

theorem not_mem_of_isFreeOf {v : String} {e : Expr} (h : isFreeOf v e = true) : v ∉ e.freeVars := by
  simp only [isFreeOf, Bool.and_eq_true, Bool.not_eq_true'] at h
  simpa using h.1

/-! ## The rules -/

/-- A tree stands for the derivative of an element where it is admissible. -/
def StandsFor (M : Calculus K) (ρ : String → K) (d : Expr) (u : K) : Prop :=
  M.Admissible ρ d → M.value ρ d = u

variable {a b da db : Expr}

theorem productRule_standsFor (ha : M.StandsFor ρ da (M.D (M.value ρ a)))
    (hb : M.StandsFor ρ db (M.D (M.value ρ b))) :
    M.StandsFor ρ (productRule a b da db) (M.D (M.value ρ a * M.value ρ b)) := by
  rintro ⟨⟨-, h1, -⟩, ⟨h2, -, -⟩, -⟩
  simp only [productRule, value, operation, ha h2, hb h1, M.D.leibniz, smul_eq_mul]
  ring

theorem quotientRule_standsFor (ha : M.StandsFor ρ da (M.D (M.value ρ a)))
    (hb : M.StandsFor ρ db (M.D (M.value ρ b))) :
    M.StandsFor ρ (quotientRule a b da db) (M.D (M.value ρ a / M.value ρ b)) := by
  rintro ⟨⟨⟨h1, -, -⟩, ⟨-, h2, -⟩, -⟩, -, -⟩
  simp only [quotientRule, value, operation, ha h1, hb h2, D_div]

theorem remainder_standsFor (ha : M.StandsFor ρ da (M.D (M.value ρ a)))
    (hb : M.StandsFor ρ db (M.D (M.value ρ b))) :
    M.StandsFor ρ (minus da (times (applyTo .floor (divide a b)) db)) (M.D (M.value ρ (modulo a b))) := by
  rintro ⟨h1, ⟨-, h2, -⟩, -⟩
  simp only [applyTo, value, operation, function, inArgument, ha h1, hb h2, M.D.map_sub, M.D.leibniz,
    M.D_floor, smul_eq_mul, mul_zero, add_zero]

/-- The exponent in the rule for a power is one less. -/
theorem powerRule_eq (M : Calculus K) (ρ : String → K) (a da : Expr) {b : Expr}
    (hexp : ∀ x, b ≠ .number (.float x)) :
    ∃ lower, powerRule a b da = times (times b (power a lower)) da ∧ M.value ρ lower = M.value ρ b - 1 := by
  cases b with
  | number n =>
    cases n with
    | int n => exact ⟨.int (n - 1), rfl, by simp [value, literal]⟩
    | float x => exact absurd rfl (hexp x)
  | _ => exact ⟨_, rfl, by simp [value, operation, literal]⟩

theorem powerRule_standsFor (ha : M.StandsFor ρ da (M.D (M.value ρ a))) (hb : M.D (M.value ρ b) = 0)
    (hexp : ∀ x, b ≠ .number (.float x)) (hbase : M.PowBase (M.value ρ a) (M.value ρ b)) :
    M.StandsFor ρ (powerRule a b da) (M.D (M.pow (M.value ρ a) (M.value ρ b))) := by
  obtain ⟨lower, hrule, hlower⟩ := powerRule_eq M ρ a da hexp
  rw [hrule]
  rintro ⟨⟨-, ⟨-, -, h1⟩, -⟩, h2, -⟩
  simp only [AdmitsOperands, hlower] at h1
  simp only [value, operation, hlower, ha h2, M.D_pow _ _ hb hbase (.inr h1)]

theorem exponentialRule_standsFor (ha : M.D (M.value ρ a) = 0) (hb : M.StandsFor ρ db (M.D (M.value ρ b))) :
    M.StandsFor ρ (exponentialRule a b db) (M.D (M.pow (M.value ρ a) (M.value ρ b))) := by
  rintro ⟨⟨-, ⟨-, h1⟩, -⟩, h2, -⟩
  simp only [AdmitsArgument, value_inArgument] at h1
  simp only [exponentialRule, applyTo, value, operation, function, value_inArgument, hb h2,
    M.pow_eq_exp _ _ h1, M.D_exp, M.D.leibniz, M.D_ln _ h1, ha, smul_eq_mul]
  ring

theorem lnRule_standsFor (ha : M.StandsFor ρ da (M.D (M.value ρ a))) (harg : M.LnArg (M.value ρ a)) :
    M.StandsFor ρ (lnRule a da) (M.D (M.ln (M.value ρ a))) := by
  rintro ⟨h1, -, -⟩
  simp only [lnRule, value, operation, value_argumentValue, ha h1, M.D_ln _ harg]

theorem generalPowerRule_standsFor (ha : M.StandsFor ρ da (M.D (M.value ρ a)))
    (hb : M.StandsFor ρ db (M.D (M.value ρ b))) :
    M.StandsFor ρ (generalPowerRule a b da db) (M.D (M.pow (M.value ρ a) (M.value ρ b))) := by
  rintro ⟨-, hd, -⟩
  have hln : M.LnArg (M.value ρ a) := by
    obtain ⟨-, ⟨-, ⟨-, h⟩, -⟩, -⟩ := hd
    simpa [AdmitsArgument] using h
  have hderiv : M.StandsFor ρ (lnRule a.inArgument da) (M.D (M.value ρ (applyTo .ln a))) :=
    lnRule_standsFor (by simpa using ha) (by simpa using hln)
  have hlnValue : M.value ρ (applyTo .ln a) = M.ln (M.value ρ a) := by simp [applyTo, value, function]
  have hproduct := productRule_standsFor hb hderiv hd
  rw [M.pow_eq_exp _ _ hln, M.D_exp, ← hlnValue, ← hproduct]
  rfl

theorem rootRule_standsFor (n : Nat) (ha : M.StandsFor ρ da (M.D (M.value ρ a)))
    (hbase : M.PowBase (M.value ρ a) (1 / n)) :
    M.StandsFor ρ (rootRule n a da) (M.D (M.pow (M.value ρ a) (1 / n))) := by
  have hexp : M.value ρ (divide (int 1) (int n)) = 1 / n := by simp [value, operation, literal]
  have hconst : M.D (M.value ρ (divide (int 1) (int n))) = 0 := by
    rw [hexp]
    exact M.D_one_div (M.D.map_natCast n)
  have h := powerRule_standsFor (a := a.argumentValue) (by simpa using ha) hconst (by simp)
    (by rwa [hexp, value_argumentValue])
  rwa [hexp, value_argumentValue] at h

theorem sinRule_standsFor (ha : M.StandsFor ρ da (M.D (M.value ρ a))) :
    M.StandsFor ρ (sinRule a da) (M.D (M.sin (M.value ρ a))) := by
  rintro ⟨-, h, -⟩
  simp only [sinRule, applyTo, value, operation, function, value_inArgument, value_argumentValue, ha h,
    M.D_sin]

theorem cosRule_standsFor (ha : M.StandsFor ρ da (M.D (M.value ρ a))) :
    M.StandsFor ρ (cosRule a da) (M.D (M.cos (M.value ρ a))) := by
  rintro ⟨-, h, -⟩
  simp only [cosRule, applyTo, value, operation, function, value_inArgument, value_argumentValue, ha h,
    M.D_cos]

theorem tanRule_standsFor (ha : M.StandsFor ρ da (M.D (M.value ρ a))) :
    M.StandsFor ρ (tanRule a da) (M.D (M.value ρ (.apply .tan a))) := by
  have ha' : M.StandsFor ρ da (M.D (M.value ρ a.argumentValue.inArgument)) := by simpa using ha
  have h := quotientRule_standsFor (a := .apply .sin a.argumentValue.inArgument)
    (b := .apply .cos a.argumentValue.inArgument) (sinRule_standsFor ha') (cosRule_standsFor ha')
  simp only [value, function, value_inArgument, value_argumentValue] at h ⊢
  exact h

theorem logRule_standsFor (ha : M.StandsFor ρ da (M.D (M.value ρ a)))
    (hb : M.StandsFor ρ db (M.D (M.value ρ b))) (harg : M.LnArg (M.value ρ a))
    (hbase : M.LnArg (M.value ρ b)) : M.StandsFor ρ (logRule b a db da) (M.D (M.value ρ (.log b a))) := by
  have ha' : M.StandsFor ρ (lnRule a.argumentValue.inArgument da)
      (M.D (M.value ρ (.apply .ln a.argumentValue.inArgument))) :=
    lnRule_standsFor (by simpa using ha) (by simpa using harg)
  have hb' : M.StandsFor ρ (lnRule b.argumentValue.inArgument db)
      (M.D (M.value ρ (.apply .ln b.argumentValue.inArgument))) :=
    lnRule_standsFor (by simpa using hb) (by simpa using hbase)
  have h := quotientRule_standsFor ha' hb'
  simp only [value, function, value_inArgument, value_argumentValue] at h ⊢
  exact h

theorem value_circleRoot (M : Calculus K) (ρ : String → K) (a : Expr) :
    M.value ρ (circleRoot a) = M.pow (1 - M.pow (M.value ρ a) 2) (1 / 2) := by
  simp [circleRoot, applyTo, value, operation, function, literal]

theorem functionRule_standsFor {fn : Fn} (ha : M.StandsFor ρ da (M.D (M.value ρ a)))
    (harg : M.AdmitsArgument fn (M.value ρ a)) :
    M.StandsFor ρ (functionRule fn a da) (M.D (M.value ρ (.apply fn a))) := by
  cases fn with
  | exp =>
    rintro ⟨-, h, -⟩
    simp only [functionRule, value, operation, function, ha h, M.D_exp]
  | ln => exact lnRule_standsFor ha harg
  | sqrt => exact_mod_cast rootRule_standsFor 2 ha (by exact_mod_cast harg)
  | sin => exact sinRule_standsFor ha
  | cos => exact cosRule_standsFor ha
  | tan => exact tanRule_standsFor ha
  | arcsin =>
    rintro ⟨-, h, -⟩
    simp only [functionRule, value, operation, function, literal, value_circleRoot, ha h, M.D_arcsin]
    push_cast
    ring
  | arccos =>
    rintro ⟨-, h, -⟩
    simp only [functionRule, value, operation, function, literal, value_circleRoot, ha h, M.D_arccos]
    push_cast
    ring
  | arctan =>
    rintro ⟨-, h, -⟩
    simp only [functionRule, value, operation, function, literal, value_argumentValue, ha h, M.D_arctan]
    push_cast
    ring
  | abs =>
    rintro ⟨-, h, -⟩
    simp only [functionRule, applyTo, value, operation, function, value_inArgument, value_argumentValue, ha h,
      M.D.leibniz, M.D_sgn, smul_eq_mul, mul_zero, add_zero]
  | ceil | floor | sgn =>
    intro _
    simp [functionRule, value, function, literal, M.D_ceil, M.D_floor, M.D_sgn]

theorem operationRule_standsFor {v : String} (hρ : ∀ x, x ≠ v → M.D (ρ x) = 0) {op : BinOp}
    (ha : Elementary a) (hb : Elementary b) (hexp : op = .power → ∀ x, b ≠ .number (.float x))
    (hadm : M.Admissible ρ (.binary op a b)) (hda : M.StandsFor ρ da (M.D (M.value ρ a)))
    (hdb : M.StandsFor ρ db (M.D (M.value ρ b))) :
    M.StandsFor ρ (operationRule v op a b da db) (M.D (M.value ρ (.binary op a b))) := by
  obtain ⟨ha1, ha2, ha3⟩ := hadm
  cases op with
  | plus =>
    rintro ⟨h1, h2, -⟩
    simp [operationRule, value, operation, hda h1, hdb h2]
  | minus =>
    rintro ⟨h1, h2, -⟩
    simp [operationRule, value, operation, hda h1, hdb h2]
  | times => exact productRule_standsFor hda hdb
  | divide => exact quotientRule_standsFor hda hdb
  | modulo => exact remainder_standsFor hda hdb
  | power =>
    simp only [operationRule]
    split
    · -- the exponent is a constant
      rename_i hfree
      exact powerRule_standsFor hda (D_of_not_mem hρ hb ha2 (not_mem_of_isFreeOf hfree)) (hexp rfl) ha3
    · split
      · -- the base is a constant
        rename_i hfree
        exact exponentialRule_standsFor (D_of_not_mem hρ ha ha1 (not_mem_of_isFreeOf hfree)) hdb
      · exact generalPowerRule_standsFor hda hdb

/-! ## The derivative -/

/-- **The derivative of a tree is the derivative of its value.** -/
theorem derive_value (M : Calculus K) (ρ : String → K) {v : String} (hv : M.D (ρ v) = 1)
    (hρ : ∀ x, x ≠ v → M.D (ρ x) = 0) {t : Expr} (ht : Elementary t) (ha : M.Admissible ρ t) :
    ∃ d, derive v t = .ok d ∧ Elementary d ∧ (M.Admissible ρ d → M.value ρ d = M.D (M.value ρ t)) := by
  induction ht with
  | number n =>
    refine ⟨int 0, rfl, .number _, fun _ => ?_⟩
    rw [value, value, M.D_literal n, literal, Int.cast_zero]
  | var x =>
    refine ⟨int (if v = x then 1 else 0), rfl, .number _, fun _ => ?_⟩
    split
    · rename_i h
      subst h
      simp [value, literal, hv]
    · rename_i h
      simp [value, literal, hρ x (Ne.symm h)]
  | fixed _ ih => exact ih ha
  | binary op he1 he2 hexp ih1 ih2 =>
    obtain ⟨da, hda, ea, sa⟩ := ih1 ha.1
    obtain ⟨db, hdb, eb, sb⟩ := ih2 ha.2.1
    exact ⟨_, derive_binary op hda hdb, .operationRule v he1 he2 hexp ea eb,
      operationRule_standsFor hρ he1 he2 hexp ha sa sb⟩
  | neg _ ih =>
    obtain ⟨d, hd, he, hs⟩ := ih ha
    exact ⟨.neg d, derive_neg hd, .neg he, fun h => by simp [value, hs h]⟩
  | apply fn he1 ih =>
    obtain ⟨d, hd, he, hs⟩ := ih ha.1
    exact ⟨_, derive_apply fn hd, .functionRule he1 he, functionRule_standsFor hs ha.2⟩
  | log he1 he2 ih1 ih2 =>
    obtain ⟨ha1, ha2, ha3, ha4, -⟩ := ha
    obtain ⟨db, hdb, eb, sb⟩ := ih1 ha1
    obtain ⟨da, hda, ea, sa⟩ := ih2 ha2
    exact ⟨_, derive_log hdb hda, .logRule he1 he2 eb ea, logRule_standsFor sa sb ha3 ha4⟩
  | root n he1 ih =>
    obtain ⟨d, hd, he, hs⟩ := ih ha.1
    exact ⟨_, derive_root n hd, .rootRule n he1 he, rootRule_standsFor n hs ha.2⟩

/-- The derivative of `x ^ 3 * ln (1 + x)`, where `x` is the series `X`. -/
theorem derive_value_of_series :
    ∃ d, derive "x" (times (power (.var "x") (int 3)) (.apply .ln (plus (int 1) (.var "x")))) = .ok d ∧
      Series.calculus.Admissible (Series.along "x") d ∧
      Series.calculus.value (Series.along "x") d =
        Series.derivation (Series.pow (Series.ofSeries .X) 3 * Series.ln (1 + Series.ofSeries .X)) := by
  have hbase (n : ℕ) : Series.calculus.PowBase (Series.ofSeries .X) n := Series.powBase_natCast _ n
  have hone : Series.calculus.LnArg (1 + Series.ofSeries .X) := ⟨1 + .X, by simp, by simp⟩
  have hx : Series.along "x" "x" = Series.ofSeries .X := Function.update_self ..
  obtain ⟨d, hd, -, hvalue⟩ := derive_value Series.calculus (Series.along "x")
    (v := "x") (t := times (power (.var "x") (int 3)) (.apply .ln (plus (int 1) (.var "x"))))
    (by simp [hx, Series.calculus]) (fun y hy => by simp [Series.along, hy]) (by simp [Elementary.var])
    (by simpa [Admissible, AdmitsOperands, AdmitsArgument, value, operation, literal, hx]
          using And.intro (hbase 3) hone)
  have hadm : Series.calculus.Admissible (Series.along "x") d := by
    simp [derive, both, isFreeOf, freeVars, hasCall, Fn.isStep, Except.map] at hd
    subst hd
    simpa [functionRule, lnRule, argumentValue, powerRule, productRule, Num.pred, Admissible, AdmitsOperands,
      AdmitsArgument, value, operation, literal, hx]
      using And.intro ⟨hbase 3, Series.BeginsWithOne.ne_zero hone⟩ ⟨hbase 2, hone⟩
  refine ⟨d, hd, hadm, ?_⟩
  rw [hvalue hadm]
  simp [value, operation, function, literal, hx, Series.calculus]

end Calculus

end ExprCalculus
