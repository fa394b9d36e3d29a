import ExprCalculus.Proofs.Form.Building

/-!
# The form of a tree stands for its value

Evaluation resolves a composition by binding the parameters of the outer function in an environment, the form of a
composition by putting the rows of one form into another.  The names are looked up when the outer function is evaluated,
also those of a composition within it, and that is what substituting for all symbols at once comes to: both let the last
of several parameters of one name count, pass by fixed arguments, and leave the other names alone.

* `Form.bindArguments_ofNumbers` — bindings of parameters are what the symbols stand for after substitution.
* `Form.agrees_compose` — the step for compositions, in both domains.
* `Form.ofExpr_value`, `Form.ofExpr_shows` — whole trees, evaluated as numbers and as vectors.
-/

namespace ExprCalculus.Form

open Reals

/-! ## Parameters -/

section Parameters

variable {σ : List (String × Form)} {ps : List Expr} {fs : List Form} {x : String}

theorem valueOf?_cons (p : String × Form) :
    valueOf? (p :: σ) x = (valueOf? σ x).or (if p.1 = x then some p.2 else none) := by
  simp only [valueOf?, List.reverse_cons, List.find?_append, List.find?_singleton, beq_iff_eq]
  cases σ.reverse.find? fun p => p.1 == x with
  | none => split <;> simp
  | some q => simp

theorem valueOf?_eq_none_iff : valueOf? σ x = none ↔ ∀ p ∈ σ, p.1 ≠ x := by
  simp [valueOf?, List.find?_eq_none]

/-- What stands for a parameter: the last component that comes with its name. -/
theorem valueOf?_assignments_cons (p : Expr) (f : Form) :
    valueOf? (assignments (p :: ps) (f :: fs)) x =
      (valueOf? (assignments ps fs) x).or (if p.parameterName? = some x then some f else none) := by
  rw [assignments]
  cases p.parameterName? with
  | none => simp
  | some y =>
    simp only [Option.some_inj]
    split
    · rename_i hlater
      split
      · rename_i hyx
        obtain ⟨a, ha, hname⟩ := List.any_eq_true.1 hlater
        have hsome : valueOf? (assignments ps fs) x ≠ none := fun hnone =>
          valueOf?_eq_none_iff.1 hnone a ha ((beq_iff_eq.1 hname).trans hyx)
        obtain ⟨s, hs⟩ := Option.ne_none_iff_exists'.1 hsome
        rw [hs, Option.some_or]
      · rw [Option.or_none]
    · exact valueOf?_cons _

theorem replaces_assignments (hfs : ∀ f ∈ fs, f.isMatrix = false) : Replaces (assignments ps fs) := by
  induction ps generalizing fs with
  | nil => exact ⟨.nil, nofun⟩
  | cons p ps ih =>
    cases fs with
    | nil => exact ⟨.nil, nofun⟩
    | cons f fs =>
      obtain ⟨hnodup, hnumbers⟩ := ih fun g hg => hfs g (.tail _ hg)
      rw [assignments]
      split
      · split
        · exact ⟨hnodup, hnumbers⟩
        · rename_i y _ hnew
          refine ⟨List.nodup_cons.2 ⟨fun hmem => hnew ?_, hnodup⟩, List.forall_mem_cons.2 ⟨hfs f (.head _), hnumbers⟩⟩
          obtain ⟨a, ha, hname⟩ := List.mem_map.1 hmem
          exact List.any_eq_true.2 ⟨a, ha, beq_iff_eq.2 hname⟩
      · exact ⟨hnodup, hnumbers⟩

/-- **Bindings of parameters are what the symbols stand for after substitution.** -/
theorem bindArguments_ofNumbers {ρ : String → Option ℝ} {xs : List ℝ} (h : List.Forall₂ (IsNumber ρ) fs xs) :
    (Env.ofNumbers ρ).bindArguments ps xs = .ofNumbers (assigned (valueOf? (assignments ps fs)) ρ) := by
  -- bindings that were made before stay where no parameter follows
  have general : ∀ (ps : List Expr) {fs : List Form} {xs : List ℝ} (ρ' : String → Option ℝ),
      List.Forall₂ (IsNumber ρ) fs xs → (Env.ofNumbers ρ').bindArguments ps xs =
        .ofNumbers fun x => ((valueOf? (assignments ps fs) x).map (value? ρ)).getD (ρ' x) := by
    intro ps
    induction ps with
    | nil => intros; rfl
    | cons p ps ih =>
      intro fs xs ρ' h
      cases h with
      | nil => rfl
      | @cons f y fs ys hf hfs =>
        simp only [valueOf?_assignments_cons, Env.bindArguments]
        cases p.parameterName? with
        | none => simp only [ih ρ' hfs, reduceCtorEq, if_false, Option.or_none]
        | some name =>
          simp only [Env.bind_ofNumbers, ih _ hfs, Option.some_inj]
          congr 1
          funext x
          cases valueOf? (assignments ps fs) x with
          | some s => simp
          | none =>
            simp only [Option.none_or, Option.map_none, Option.getD_none, Function.update_apply, eq_comm (a := x)]
            split
            · simp [hf.2]
            · simp
  rw [general ps ρ h]
  congr 1
  funext x
  rw [assigned]
  cases valueOf? (assignments ps fs) x <;> simp

end Parameters

/-! ## One step for each kind of tree -/

section Steps

attribute [simp] ofExpr ofExprs

variable {mk : Builder} {depth : Nat} {a b e : Expr}

/-- A tree has a form that stands for whatever it is evaluated to, as a number and as a vector. -/
structure Agrees (mk : Builder) (depth : Nat) (e : Expr) : Prop where
  real : ∀ {ρ v}, evaluateWith (evaluateUpTo depth) e (.domain .real) (.ofNumbers ρ) = .ok v →
    ∃ x f, v = .real x ∧ ofExpr mk e = .ok f ∧ f.value? ρ = some x
  vector : ∀ {ρ v}, evaluateWith (evaluateUpTo depth) e (.domain .vector) (.ofNumbers ρ) = .ok v →
    ∃ f, ofExpr mk e = .ok f ∧ f.Shows ρ v

/-- What is evaluated to a number in both domains. -/
theorem agrees_of_number
    (h : ∀ {d : Domain} {ρ v}, d ≠ .interval →
      evaluateWith (evaluateUpTo depth) e (.domain d) (.ofNumbers ρ) = .ok v →
        ∃ x f, v = .real x ∧ ofExpr mk e = .ok f ∧ f.IsNumber ρ x) : Agrees mk depth e where
  real hv := by
    obtain ⟨x, f, hx, hf, hnumber⟩ := h (by decide) hv
    exact ⟨x, f, hx, hf, hnumber.2⟩
  vector hv := by
    obtain ⟨x, f, rfl, hf, hnumber⟩ := h (by decide) hv
    exact ⟨f, hf, hnumber⟩

theorem agrees_number (n : Num) : Agrees mk depth (.number n) :=
  agrees_of_number fun hd h => by
    obtain ⟨x, hx, rfl⟩ := (evaluateWith_number_iff hd).1 h
    obtain ⟨q, hq, rfl⟩ := ofNum_iff.1 hx
    exact ⟨q, ofNum n, rfl, by rw [ofExpr], isNumber_ofNum hq⟩

theorem agrees_var (x : String) : Agrees mk depth (.var x) :=
  agrees_of_number fun hd h => by
    obtain ⟨y, hy, rfl⟩ := (evaluateWith_var_iff hd).1 h
    exact ⟨y, .symbol x, rfl, by rw [ofExpr], rfl, hy⟩

/-- What is evaluated as another tree is and has its form. -/
theorem Agrees.of_eq {e' : Expr} (he : Agrees mk depth e)
    (heval : ∀ tag env, evaluateWith (evaluateUpTo depth) e' tag env =
      evaluateWith (evaluateUpTo (α := ℝ) depth) e tag env)
    (hform : ofExpr mk e' = ofExpr mk e) : Agrees mk depth e' where
  real h := by
    rw [hform]
    exact he.real (heval _ _ ▸ h)
  vector h := by
    rw [hform]
    exact he.vector (heval _ _ ▸ h)

theorem agrees_fixed (he : Agrees mk depth e) : Agrees mk depth (.fixed e) :=
  he.of_eq (fun _ _ => by rw [evaluateWith]) (by rw [ofExpr])

theorem agrees_custom {name : String} {params : List Expr} (he : Agrees mk depth e) :
    Agrees mk depth (.custom name params e) :=
  he.of_eq (fun _ _ => by rw [evaluateWith]) (by rw [ofExpr])

/-- An interval is no number and no vector. -/
theorem agrees_interval : Agrees mk depth (.interval a b) where
  real h := by
    rw [evaluateWith] at h
    cases h
  vector h := by
    rw [evaluateWith] at h
    cases h

/-- There are no functions to call. -/
theorem agrees_call (name : String) : Agrees mk depth (.call name) where
  real h := by
    rw [evaluateWith] at h
    cases h
  vector h := by
    rw [evaluateWith] at h
    cases h

theorem agrees_binary (hmk : mk.KeepsMeaning) {op : BinOp} (ha : Agrees mk depth a) (hb : Agrees mk depth b) :
    Agrees mk depth (.binary op a b) := by
  constructor
  · intro ρ v h
    obtain ⟨u, w, hu, hw, h⟩ := (evaluateWith_binary_iff (by decide)).1 h
    obtain ⟨x, f, rfl, hf, hx⟩ := ha.real hu
    obtain ⟨y, g, rfl, hg, hy⟩ := hb.real hw
    obtain ⟨z, hz, rfl⟩ := valueCombine_iff.1 (Outcome.ofArithmetic_eq_ok_iff.1 h)
    obtain ⟨k, hk, hkz, -⟩ := makes_ofOperation hmk hx hy hz
    exact ⟨z, k, rfl, by simp only [ofExpr, hf, hg, hk], hkz⟩
  · intro ρ v h
    obtain ⟨u, w, hu, hw, h⟩ := (evaluateWith_binary_iff (by decide)).1 h
    obtain ⟨f, hf, hfu⟩ := ha.vector hu
    obtain ⟨g, hg, hgw⟩ := hb.vector hw
    obtain ⟨k, hk, hkv⟩ := shows_ofOperation hmk hfu hgw h
    exact ⟨k, by simp only [ofExpr, hf, hg, hk], hkv⟩

theorem agrees_neg (hmk : mk.KeepsMeaning) (ha : Agrees mk depth a) : Agrees mk depth (.neg a) := by
  constructor
  · intro ρ v h
    obtain ⟨u, hu, h⟩ := evaluateWith_neg_iff.1 h
    obtain ⟨x, f, rfl, hf, hx⟩ := ha.real hu
    cases h
    obtain ⟨k, hk, hkx, -⟩ := makes_negative hmk hx
    exact ⟨-x, k, rfl, by simp only [ofExpr, hf, hk], hkx⟩
  · intro ρ v h
    obtain ⟨u, hu, h⟩ := evaluateWith_neg_iff.1 h
    obtain ⟨f, hf, hfu⟩ := ha.vector hu
    obtain ⟨k, hk, hkv⟩ := shows_negative hmk hfu h
    exact ⟨k, by simp only [ofExpr, hf, hk], hkv⟩

/-- Default functions are functions of numbers. -/
theorem agrees_apply (hmk : mk.KeepsMeaning) {fn : Fn} (ha : Agrees mk depth a) : Agrees mk depth (.apply fn a) := by
  constructor
  · intro ρ v h
    obtain ⟨-, u, hu, h⟩ := evaluateWith_apply_iff.1 h
    obtain ⟨x, f, rfl, hf, hx⟩ := ha.real hu
    obtain ⟨y, hy, rfl⟩ := applyFunction_iff.1 h
    obtain ⟨k, hk, hky, -⟩ := makes_ofFunction hmk hx hy
    exact ⟨y, k, rfl, by simp only [ofExpr, hf, hk], hky⟩
  · intro ρ v h
    cases (evaluateWith_apply_iff.1 h).1

theorem agrees_log (hmk : mk.KeepsMeaning) (hb : Agrees mk depth b) (ha : Agrees mk depth a) :
    Agrees mk depth (.log b a) := by
  constructor
  · intro ρ v h
    obtain ⟨-, u, w, ⟨hu, hw⟩, s, t, hs, ht, h⟩ := evaluateWith_log_iff.1 h
    obtain ⟨x, f, rfl, hf, hx⟩ := ha.real hu
    obtain ⟨y, g, rfl, hg, hy⟩ := hb.real hw
    obtain ⟨p, hp, rfl⟩ := applyFunction_iff.1 hs
    obtain ⟨q, hq, rfl⟩ := applyFunction_iff.1 ht
    obtain ⟨z, hz, rfl⟩ := valueCombine_iff.1 h
    obtain ⟨hzero, rfl⟩ := divide_iff.1 (combine_iff.2 hz)
    obtain ⟨k, hk, hkz, -⟩ := makes_logarithm hmk hx hy hp hq hzero
    exact ⟨_, k, rfl, by simp only [ofExpr, hf, hg, hk], hkz⟩
  · intro ρ v h
    cases (evaluateWith_log_iff.1 h).1

theorem agrees_root (hmk : mk.KeepsMeaning) {n : Nat} (ha : Agrees mk depth a) : Agrees mk depth (.root n a) := by
  constructor
  · intro ρ v h
    obtain ⟨-, u, hu, h⟩ := evaluateWith_root_iff.1 h
    obtain ⟨x, f, rfl, hf, hx⟩ := ha.real hu
    obtain ⟨hn, y, hy, rfl⟩ := rootOf_iff.1 h
    obtain ⟨k, hk, hky, -⟩ := makes_root hmk hx (value?_make hn) hy
    exact ⟨y, k, rfl, by simp only [ofExpr, hf, hk], hky⟩
  · intro ρ v h
    cases (evaluateWith_root_iff.1 h).1

theorem forall₂_ofExprs {es : List Expr} (hes : ∀ e ∈ es, Agrees mk depth e) {ρ : String → Option ℝ} {xs : List ℝ}
    (h : List.Forall₂
      (fun e x => evaluateWith (evaluateUpTo depth) e (.domain .real) (.ofNumbers ρ) = .ok (.real x)) es xs) :
    ∃ fs, ofExprs mk es = .ok fs ∧ List.Forall₂ (fun f x => f.value? ρ = some x) fs xs := by
  induction h with
  | nil => exact ⟨[], by rw [ofExprs], .nil⟩
  | cons hx _ ih =>
    obtain ⟨x, f, hreal, hf, hfx⟩ := (hes _ (.head _)).real hx
    cases hreal
    obtain ⟨fs, hfs, hvalues⟩ := ih fun e he => hes e (.tail _ he)
    exact ⟨f :: fs, by simp only [ofExprs, hf, hfs], .cons hfx hvalues⟩

/-- A vector is a column, and of one element also a number. -/
theorem agrees_vector (hmk : mk.KeepsMeaning) {es : List Expr} (hes : ∀ e ∈ es, Agrees mk depth e) :
    Agrees mk depth (.vector es) := by
  constructor
  · intro ρ v h
    obtain ⟨e, rfl, he⟩ := evaluateWith_vector_real_iff.1 h
    obtain ⟨x, f, rfl, hf, hx⟩ := (hes e (.head _)).real he
    obtain ⟨k, hk, hcolumn⟩ := hmk.column [f] ρ [x] (isColumn_column (.cons hx .nil))
    exact ⟨x, k, rfl, by simp only [ofExpr, ofExprs, hf, hk], hcolumn.value?⟩
  · intro ρ v h
    obtain ⟨xs, rfl, hxs⟩ := forall₂_of_vector h
    obtain ⟨fs, hfs, hvalues⟩ := forall₂_ofExprs hes hxs
    obtain ⟨k, hk, hcolumn⟩ := hmk.column fs ρ xs (isColumn_column hvalues)
    refine ⟨k, by simp only [ofExpr, hfs, hk], ?_, hcolumn⟩
    rintro rfl
    cases hxs
    cases h

/-! ## Compositions -/

/-- What an inner function hands over stands in the rows of its form. -/
theorem exists_rows_of_handsOver (ha : Agrees mk depth a) {dimension : Nat} {ρ : String → Option ℝ} {xs : List ℝ}
    (h : HandsOver (evaluateUpTo depth) a dimension (.ofNumbers ρ) xs) :
    ∃ f, ofExpr mk a = .ok f ∧ List.Forall₂ (IsNumber ρ) f.rows xs := by
  obtain ⟨w, hw, hover⟩ := h
  rw [handedOver_eq_ok_iff] at hover
  rw [innerTag] at hw
  split at hover
  · rename_i hone
    rw [if_pos hone] at hw
    obtain ⟨x, hx, rfl⟩ := hover
    obtain ⟨y, f, rfl, hf, hy⟩ := ha.real hw
    cases hx
    obtain ⟨g, hg, hnumber⟩ := exists_rows hy
    exact ⟨f, hf, hg ▸ .cons hnumber .nil⟩
  · rename_i hone
    rw [if_neg hone] at hw
    obtain ⟨rfl, -⟩ := hover
    obtain ⟨f, hf, -, rows, rfl, hrows⟩ := ha.vector hw
    exact ⟨_, hf, hrows⟩

/-- **A composition**: the form of the outer function, with the rows of the inner one for the parameters, stands for
what the outer function is evaluated to where the parameters are bound to what is handed over. -/
theorem agrees_compose (hmk : mk.KeepsMeaning) (ha : Agrees mk depth a) (hb : Agrees mk depth b) :
    Agrees mk depth (.compose a b) := by
  constructor
  · intro ρ v h
    obtain ⟨-, xs, hover, h⟩ := evaluateWith_compose_iff.1 h
    obtain ⟨f, hf, hrows⟩ := exists_rows_of_handsOver ha hover
    rw [bindArguments_ofNumbers hrows] at h
    obtain ⟨x, g, rfl, hg, hx⟩ := hb.real h
    have hσ : Replaces (assignments b.args f.rows) := replaces_assignments (isMatrix_of_isNumber hrows)
    obtain ⟨k, hk, hkx, -⟩ := makes_substitute hmk hσ hx
    exact ⟨x, k, rfl, by simp only [ofExpr, hf, hg, hk], hkx⟩
  · intro ρ v h
    obtain ⟨-, xs, hover, h⟩ := evaluateWith_compose_iff.1 h
    obtain ⟨f, hf, hrows⟩ := exists_rows_of_handsOver ha hover
    rw [bindArguments_ofNumbers hrows] at h
    obtain ⟨g, hg, hgv⟩ := hb.vector h
    have hσ : Replaces (assignments b.args f.rows) := replaces_assignments (isMatrix_of_isNumber hrows)
    obtain ⟨k, hk, hkv⟩ := shows_substitute hmk hσ hgv
    exact ⟨k, by simp only [ofExpr, hf, hg, hk], hkv⟩

end Steps

/-! ## Whole trees -/

section Trees

variable {mk : Builder}

mutual

theorem agrees (hmk : mk.KeepsMeaning) (depth : Nat) : ∀ e : Expr, Agrees mk depth e
  | .number n => agrees_number n
  | .var x => agrees_var x
  | .fixed e => agrees_fixed (agrees hmk depth e)
  | .vector es => agrees_vector hmk (agrees_all hmk depth es)
  | .interval _ _ => agrees_interval
  | .binary _ a b => agrees_binary hmk (agrees hmk depth a) (agrees hmk depth b)
  | .neg a => agrees_neg hmk (agrees hmk depth a)
  | .apply _ a => agrees_apply hmk (agrees hmk depth a)
  | .log b a => agrees_log hmk (agrees hmk depth b) (agrees hmk depth a)
  | .root _ a => agrees_root hmk (agrees hmk depth a)
  | .custom _ _ e => agrees_custom (agrees hmk depth e)
  | .compose a b => agrees_compose hmk (agrees hmk depth a) (agrees hmk depth b)
  | .call name => agrees_call name

theorem agrees_all (hmk : mk.KeepsMeaning) (depth : Nat) : ∀ es : List Expr, ∀ e ∈ es, Agrees mk depth e
  | [] => nofun
  | a :: as => List.forall_mem_cons.2 ⟨agrees hmk depth a, agrees_all hmk depth as⟩

end

/-- **The form of a tree stands for the number that the tree is evaluated to**, whatever numbers the variables are
given: where evaluation comes to a value, that is a number, there is a form, and the form stands for the number. -/
theorem ofExpr_value (hmk : mk.KeepsMeaning) (ρ : String → Option ℝ) {e : Expr} {v : Value ℝ}
    (h : evaluate (.domain .real) (.ofNumbers ρ) e = .ok v) :
    ∃ x f, v = .real x ∧ ofExpr mk e = .ok f ∧ f.value? ρ = some x :=
  (agrees hmk _ e).real h

/-- The tree `comp(c, comp(f, g))` for `c() = 3`, `f(x) = [y, x]` and `g(x, y) = y ^ x`: what stands for each parameter
of `g` is the name of the other one. -/
def exchanged : Expr :=
  .compose (.custom "c" [] (.int 3))
    (.compose (.custom "f" [.var "x"] (.vector [.var "y", .var "x"]))
      (.custom "g" [.var "x", .var "y"] (.power (.var "y") (.var "x"))))

/-- Gives a number to `y` alone. -/
def atY (y : ℝ) (x : String) : Option ℝ := if x = "y" then some y else none

/-- The parameters change places in the power, then three stands for the one that is left; reduced or not, the form is
the same. -/
theorem ofExpr_value_exchanged :
    evaluate (.domain .real) (.ofNumbers (atY 2)) exchanged = .ok (.real 9) ∧
      ∃ f, ofExpr literal exchanged = .ok f ∧ ofExpr asWritten exchanged = .ok f ∧ ofExpr reduced exchanged = .ok f ∧
        f.value? (atY 2) = some 9 := by
  have hthree : (Scalar.ofNum (.int 3) : Except (Fault ℝ) ℝ) = .ok 3 := ofNum_iff.2 ⟨3, by simp, by norm_num⟩
  have hpower : (Scalar.power 3 2 : Except (Fault ℝ) ℝ) = .ok 9 :=
    orRefuse_eq_ok_iff.2 (only_eq_some.2 ⟨.inl three_pos, by norm_num⟩)
  have hvalue : evaluate (.domain .real) (.ofNumbers (atY 2)) exchanged = .ok (.real 9) := by
    simp [evaluate, defaultDepth, evaluateUpTo, exchanged, evaluateWith, evaluateAll, literalUnder, hthree, numberUnder,
      innerTag, Expr.args, handedOver, Value.number, Env.bindArguments, Env.bind, Expr.parameterName?, Env.ofNumbers,
      atY, Outcome.ofArithmetic, Value.ofComponents, Value.numbers, Except.map, secondTag, combineUnder,
      Value.combine, Scalar.combine, hpower]
  obtain ⟨x, f, hx, hf, hform⟩ := ofExpr_value keepsMeaning_literal (atY 2) hvalue
  cases hx
  cases hf
  exact ⟨hvalue, _, rfl, rfl, rfl, hform⟩

/-- A tree that is evaluated as a vector has a form that shows the value, a vector as a column of its components. -/
theorem ofExpr_shows (hmk : mk.KeepsMeaning) (ρ : String → Option ℝ) {e : Expr} {v : Value ℝ}
    (h : evaluate (.domain .vector) (.ofNumbers ρ) e = .ok v) : ∃ f, ofExpr mk e = .ok f ∧ f.Shows ρ v :=
  (agrees hmk _ e).vector h

end Trees

end ExprCalculus.Form
