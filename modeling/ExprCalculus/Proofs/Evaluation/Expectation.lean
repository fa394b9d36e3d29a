import ExprCalculus.Proofs.Evaluation.Names

/-!
# What evaluations come to

An expectation says which values and which errors an evaluation may come to under a tag.  It is kept if each kind of
node comes to what is expected where its parts do (`Expectation.Kept`).  Then whole trees do, in environments whose
bindings do (`Expectation.Supported`, `evaluateWith_meets`), and so do trees whose names lead through any number of
bindings (`evaluateUpTo_meets`).

The first use of it is the blame for variables without a binding: none is to blame where all names are bound that an
evaluation looks up (`evaluateUpTo_bound`).
-/

namespace ExprCalculus

/-! ## Expectations -/

/-- What an evaluation may come to under each tag. -/
structure Expectation (α : Type) where
  value : Tag → Value α → Prop
  error : Tag → EvalError α → Prop

variable {α : Type}

/-- An outcome that is expected under a tag. -/
def Expectation.Meets (E : Expectation α) (tag : Tag) : Outcome α → Prop
  | .ok v => E.value tag v
  | .error e => E.error tag e

theorem Expectation.Meets.cases {E : Expectation α} {tag : Tag} {o : Outcome α} (h : E.Meets tag o) :
    (∃ v, o = .ok v ∧ E.value tag v) ∨ ∃ e, o = .error e ∧ E.error tag e := by
  cases o with
  | error e => exact .inr ⟨e, rfl, h⟩
  | ok v => exact .inl ⟨v, rfl, h⟩

variable [Scalar α]

open Outcome (ofArithmetic refused)

/-- An expectation that each kind of node meets where its parts do, unbound variables left aside. -/
structure Expectation.Kept (E : Expectation α) : Prop where
  calculated : ∀ x tag, E.Meets tag (numberUnder x tag)
  literal : ∀ v tag, E.Meets tag (literalUnder v tag)
  refused : ∀ what tag, E.Meets tag (refused what tag)
  vector : ∀ {vs}, (∀ v ∈ vs, E.value (.domain .real) v) →
    E.Meets (.domain .vector) (ofArithmetic (Value.ofComponents vs))
  interval : ∀ {a b}, E.value (.domain .real) a → E.value (.domain .real) b →
    E.Meets (.domain .interval) (ofArithmetic (a.between b))
  binary : ∀ op {tag a b}, E.value tag a → E.value (secondTag op tag) b → E.Meets tag (combineUnder op a b tag)
  neg : ∀ {d v}, E.value (.domain d) v → E.Meets (.domain d) (ofArithmetic v.negate)
  apply : ∀ fn {tag v}, fn.hasValues tag = true → E.value tag v → E.Meets tag (ofArithmetic (applyFunction fn v))
  /-- the quotient of two logarithms -/
  quotient : ∀ {tag a b}, tag.isScalar = true → E.value tag a → E.value tag b →
    E.Meets tag (ofArithmetic (a.combine .divide b))
  root : ∀ n {tag v}, tag.isScalar = true → E.value tag v → E.Meets tag (ofArithmetic (rootOf n v))
  dimension : ∀ g n tag, E.error tag (.composeDimension g n)
  handedOver : ∀ {f n v e}, E.value (innerTag n) v → handedOver f n v = .error e → ∀ tag, E.error tag e
  unboundFunction : ∀ f tag, E.error tag (.unboundFunction f)
  /-- an error of a part that is evaluated under a tag of its own -/
  inner : ∀ {d e}, E.error (.domain d) e → ∀ tag, E.error tag e

theorem Fn.hasValues_ln {tag : Tag} (h : tag.isScalar = true) : Fn.ln.hasValues tag = true := by
  match tag with
  | .domain .real | .domain .interval => rfl

/-- The second operand is evaluated under the tag of the operation or as a number. -/
theorem Expectation.Kept.secondTag {E : Expectation α} (hE : E.Kept) {op : BinOp} {tag : Tag} {e : EvalError α}
    (h : E.error (secondTag op tag) e) : E.error tag e := by
  unfold ExprCalculus.secondTag at h
  split at h
  · exact hE.inner h tag
  · exact h

/-- Environments that go with sets of names, in which the names of `V` and `F` are expected to be unbound where they
are, and are bound to expressions of which `bound` meets the expectation where they are not; and that remain so with the
parameters of a composition. -/
structure Expectation.Supported (E : Expectation α) (F : Set String) (bound : Tag → Env α → Expr → Outcome α)
    (R : Set String → Env α → Prop) : Prop where
  unbound : ∀ {V env x}, R V env → x ∈ V → env.vars x = none → ∀ tag, E.error tag (.unboundVariable x)
  vars : ∀ {V env x e}, R V env → x ∈ V → env.vars x = some (.tree e) → ∀ tag, E.Meets tag (bound tag env e)
  funcs : ∀ {V env f e}, R V env → f ∈ F → env.funcs f = some e → ∀ tag, E.Meets tag (bound tag env e)
  bind : ∀ {V env} {g : Expr} {xs : List α}, R V env → xs.length = g.args.length →
    R (V ∪ {x | x ∈ g.parameterNames}) (env.bindArguments g.args xs)

/-- Unbound variables of `V` are expected. -/
def Env.MayLack (E : Expectation α) (V : Set String) (env : Env α) : Prop :=
  ∀ x ∈ V, env.vars x = none → ∀ tag, E.error tag (.unboundVariable x)

theorem Env.MayLack.bindArguments {α : Type} {E : Expectation α} {V : Set String} {env : Env α} (h : env.MayLack E V)
    {g : Expr} {xs : List α} (hlength : xs.length = g.args.length) :
    (env.bindArguments g.args xs).MayLack E (V ∪ {x | x ∈ g.parameterNames}) := by
  intro x hx hnone
  by_cases hparam : x ∈ g.parameterNames
  · obtain ⟨y, hy⟩ := Env.exists_bindArguments hlength hparam
    rw [hy env] at hnone
    cases hnone
  · rw [Env.bindArguments_of_not_mem hparam] at hnone
    exact h x (hx.resolve_right hparam) hnone

/-! ## Trees -/

section

variable {E : Expectation α} {F : Set String} {bound : Tag → Env α → Expr → Outcome α}
  {R : Set String → Env α → Prop}

mutual

/-- A tree meets an expectation that is kept, if the expressions that names lead to do. -/
theorem evaluateWith_meets (hE : E.Kept) (hR : E.Supported F bound R) :
    ∀ (e : Expr) (tag : Tag) {V : Set String} {env : Env α}, R V env → e.NamesIn V F →
      E.Meets tag (evaluateWith bound e tag env)
  | .number v, tag, _, _, _, _ => by
    rw [evaluateWith]
    exact hE.literal v tag
  | .var x, tag, _, env, henv, h => by
    rw [evaluateWith]
    split
    · rename_i hnone
      exact hR.unbound henv h hnone tag
    · exact hE.calculated _ tag
    · rename_i e he
      exact hR.vars henv h he tag
  | .call f, tag, _, env, henv, h => by
    rw [evaluateWith]
    split
    · exact hE.unboundFunction f tag
    · rename_i e he
      exact hR.funcs henv h he tag
  | .fixed e, tag, _, _, henv, h => by
    rw [evaluateWith]
    exact evaluateWith_meets hE hR e tag henv h
  | .vector es, tag, _, _, henv, h => by
    simp only [evaluateWith]
    obtain ⟨vs, hvs, hall, hlength⟩ | ⟨e, he, herror⟩ :=
      evaluateAll_meets hE hR es (.domain .real) henv h
    · split
      · simp only [hvs]
        exact hE.vector hall
      · split
        · rename_i hone
          obtain ⟨v, rfl⟩ := List.length_eq_one_iff.1 (hlength.trans hone)
          simp only [hvs]
          exact hall v List.mem_cons_self
        · exact hE.refused _ _
      · exact hE.refused _ _
    · split
      · simp only [he]
        exact hE.inner herror _
      · split
        · simp only [he]
          exact herror
        · exact hE.refused _ _
      · exact hE.refused _ _
  | .interval lo hi, tag, _, env, henv, h => by
    rw [evaluateWith]
    split
    · rename_i htag
      subst htag
      obtain ⟨a, ha, hvalue⟩ | ⟨e, he, herror⟩ :=
        (evaluateWith_meets hE hR lo (.domain .real) henv h.1).cases
      · obtain ⟨b, hb, hvalue'⟩ | ⟨e, he, herror⟩ :=
          (evaluateWith_meets hE hR hi (.domain .real) henv h.2).cases
        · simp only [ha, hb]
          exact hE.interval hvalue hvalue'
        · simp only [ha, he]
          exact hE.inner herror _
      · simp only [he]
        exact hE.inner herror _
    · exact hE.refused _ _
  | .binary op first second, tag, _, _, henv, h => by
    rw [evaluateWith]
    obtain ⟨a, ha, hvalue⟩ | ⟨e, he, herror⟩ := (evaluateWith_meets hE hR first tag henv h.1).cases
    · obtain ⟨b, hb, hvalue'⟩ | ⟨e, he, herror⟩ :=
        (evaluateWith_meets hE hR second (secondTag op tag) henv h.2).cases
      · simp only [ha, hb]
        exact hE.binary op hvalue hvalue'
      · simp only [ha, he]
        exact hE.secondTag herror
    · simp only [he]
      exact herror
  | .neg e, .other s, _, _, _, _ => by
    rw [evaluateWith]
    exact hE.refused "" (.other s)
  | .neg e, .domain d, _, _, henv, h => by
    rw [evaluateWith]
    obtain ⟨v, hv, hvalue⟩ | ⟨x, hx, herror⟩ :=
      (evaluateWith_meets hE hR e (.domain d) henv h).cases
    · simp only [hv]
      exact hE.neg hvalue
    · simp only [hx]
      exact herror
  | .apply fn arg, tag, _, _, henv, h => by
    rw [evaluateWith]
    split
    · rename_i hvalues
      obtain ⟨v, hv, hvalue⟩ | ⟨x, hx, herror⟩ := (evaluateWith_meets hE hR arg tag henv h).cases
      · simp only [hv]
        exact hE.apply fn hvalues hvalue
      · simp only [hx]
        exact herror
    · exact hE.refused _ _
  | .log base arg, tag, _, _, henv, h => by
    rw [evaluateWith]
    split
    · rename_i hscalar
      obtain ⟨a, ha, hvalue⟩ | ⟨x, hx, herror⟩ := (evaluateWith_meets hE hR arg tag henv h.2).cases
      · have hln := hE.apply .ln (Fn.hasValues_ln hscalar) hvalue
        simp only [ha]
        split
        · rename_i f hf
          rw [hf] at hln
          exact hln
        rename_i lnArg hlnArg
        rw [hlnArg] at hln
        obtain ⟨b, hb, hvalue'⟩ | ⟨x, hx, herror⟩ :=
          (evaluateWith_meets hE hR base tag henv h.1).cases
        · have hln' := hE.apply .ln (Fn.hasValues_ln hscalar) hvalue'
          simp only [hb]
          split
          · rename_i f hf
            rw [hf] at hln'
            exact hln'
          · rename_i lnBase hlnBase
            rw [hlnBase] at hln'
            exact hE.quotient hscalar hln hln'
        · simp only [hx]
          exact herror
      · simp only [hx]
        exact herror
    · exact hE.refused _ _
  | .root n arg, tag, _, _, henv, h => by
    rw [evaluateWith]
    split
    · rename_i hscalar
      obtain ⟨v, hv, hvalue⟩ | ⟨x, hx, herror⟩ := (evaluateWith_meets hE hR arg tag henv h).cases
      · simp only [hv]
        exact hE.root n hscalar hvalue
      · simp only [hx]
        exact herror
    · exact hE.refused _ _
  | .custom _ _ body, tag, _, _, henv, h => by
    rw [evaluateWith]
    exact evaluateWith_meets hE hR body tag henv h
  | .compose f g, tag, _, _, henv, h => by
    rw [evaluateWith]
    split
    · exact hE.dimension _ _ tag
    · obtain ⟨v, hv, hvalue⟩ | ⟨x, hx, herror⟩ :=
        (evaluateWith_meets hE hR f (innerTag g.args.length) henv h.1).cases
      · simp only [hv]
        split
        · rename_i hover
          exact hE.handedOver hvalue hover tag
        · rename_i hover
          have hlength := handedOver_length hover
          exact evaluateWith_meets hE hR g tag (hR.bind henv hlength) h.2
      · simp only [hx]
        exact hE.inner herror tag

/-- The same of several trees. -/
theorem evaluateAll_meets (hE : E.Kept) (hR : E.Supported F bound R) :
    ∀ (es : List Expr) (tag : Tag) {V : Set String} {env : Env α}, R V env → Expr.AllNamesIn es V F →
      (∃ vs, evaluateAll bound es tag env = .ok vs ∧ (∀ v ∈ vs, E.value tag v) ∧ vs.length = es.length) ∨
        ∃ e, evaluateAll bound es tag env = .error e ∧ E.error tag e
  | [], _, _, _, _, _ => .inl ⟨[], by rw [evaluateAll], by simp, rfl⟩
  | e :: es, tag, _, _, henv, h => by
    rw [evaluateAll]
    obtain ⟨v, hv, hvalue⟩ | ⟨x, hx, herror⟩ := (evaluateWith_meets hE hR e tag henv h.1).cases
    · obtain ⟨vs, hvs, hall, hlength⟩ | ⟨x, hx, herror⟩ := evaluateAll_meets hE hR es tag henv h.2
      · refine .inl ⟨v :: vs, by simp only [hv, hvs], ?_, by simp only [List.length_cons, hlength]⟩
        exact List.forall_mem_cons.2 ⟨hvalue, hall⟩
      · exact .inr ⟨x, by simp only [hv, hx], herror⟩
    · exact .inr ⟨x, by simp only [hx], herror⟩

end

end

/-! ## Bindings through any number of names -/

variable {V F : Set String} {env : Env α} {e : Expr}

/-- **An expectation that is kept is met**, by induction over the number of bindings that names may lead through. -/
theorem evaluateUpTo_meets {E : Expectation α} (hE : E.Kept) (hdeep : ∀ tag, E.error tag .tooDeep)
    (hleads : env.LeadsTo (·.NamesIn V F) V F) (hlack : env.MayLack E V) (he : e.NamesIn V F) (depth : Nat)
    (tag : Tag) : E.Meets tag (evaluateUpTo depth tag env e) := by
  -- on the way compositions bind more names, to numbers
  let reached (W : Set String) (env : Env α) : Prop :=
    V ⊆ W ∧ env.LeadsTo (·.NamesIn V F) W F ∧ env.MayLack E W
  have general : ∀ depth {W : Set String} {env : Env α}, reached W env →
      ∀ {e : Expr}, e.NamesIn W F → ∀ tag, E.Meets tag (evaluateUpTo depth tag env e) := by
    intro depth
    induction depth with
    | zero => exact fun _ _ _ tag => hdeep tag
    | succ depth ih =>
      intro W env henv e he tag
      have onward {W : Set String} {env : Env α} (henv : reached W env) {b : Expr}
          (hb : b.NamesIn V F) (tag : Tag) : E.Meets tag (evaluateUpTo depth tag env b) :=
        ih henv (hb.mono _ henv.1) tag
      refine evaluateWith_meets hE ?_ e tag henv he
      constructor
      · exact fun henv hx hnone => henv.2.2 _ hx hnone
      · exact fun henv hx hb => onward henv (henv.2.1.vars _ hx _ hb)
      · exact fun henv hf hb => onward henv (henv.2.1.funcs _ hf _ hb)
      · intro W env g xs henv hlength
        exact ⟨henv.1.trans Set.subset_union_left, henv.2.1.bindArguments hlength, henv.2.2.bindArguments hlength⟩
  exact general depth ⟨subset_rfl, hleads, hlack⟩ he tag

/-! ## Unbound variables -/

/-- Anything but blame for a variable without a binding. -/
def Expectation.bound (α : Type) : Expectation α where
  value _ _ := True
  error _ e :=
    match e with
    | .unboundVariable _ => False
    | _ => True

theorem bound_meets_arithmetic {α : Type} (tag : Tag) (r : Except (Fault α) (Value α)) :
    (Expectation.bound α).Meets tag (ofArithmetic r) := by
  cases r <;> trivial

theorem bound_meets_numberUnder {α : Type} (x : α) (tag : Tag) : (Expectation.bound α).Meets tag (numberUnder x tag) := by
  match tag with
  | .domain .real | .domain .vector | .domain .interval | .other _ => trivial

theorem bound_meets_literalUnder (v : Num) (tag : Tag) : (Expectation.bound α).Meets tag (literalUnder v tag) := by
  cases tag with
  | other s => trivial
  | domain d =>
    simp only [literalUnder]
    split
    · exact bound_meets_numberUnder _ _
    · trivial

theorem bound_meets_combineUnder (op : BinOp) (a b : Value α) (tag : Tag) :
    (Expectation.bound α).Meets tag (combineUnder op a b tag) := by
  match tag with
  | .domain .real => exact bound_meets_arithmetic _ _
  | .domain .vector | .domain .interval =>
    simp only [combineUnder]
    split <;> first | exact bound_meets_arithmetic _ _ | trivial
  | .other s => trivial

theorem bound_error_of_handedOver {α : Type} {f : String} {n : Nat} {v : Value α} {e : EvalError α}
    (h : handedOver f n v = .error e) (tag : Tag) : (Expectation.bound α).error tag e := by
  unfold handedOver at h
  split at h
  · split at h
    · cases h
    · cases h
      trivial
  · split at h
    · split at h
      · cases h
      · cases h
        trivial
    · cases h
      trivial

theorem Expectation.bound_kept : (bound α).Kept where
  calculated := bound_meets_numberUnder
  literal := bound_meets_literalUnder
  refused _ tag := by cases tag <;> trivial
  vector _ := bound_meets_arithmetic _ _
  interval _ _ := bound_meets_arithmetic _ _
  binary op _ a b _ _ := bound_meets_combineUnder op a b _
  neg _ := bound_meets_arithmetic _ _
  apply _ _ _ _ _ := bound_meets_arithmetic _ _
  quotient _ _ _ := bound_meets_arithmetic _ _
  root _ _ _ _ _ := bound_meets_arithmetic _ _
  dimension _ _ _ := trivial
  handedOver _ := bound_error_of_handedOver
  unboundFunction _ _ := trivial
  inner h _ := h

/-- **Where all variables are bound that an evaluation looks up**, directly and through bindings, it does not blame one
for being unbound. -/
theorem evaluateUpTo_bound (hleads : env.LeadsTo (·.NamesIn V F) V F) (hbound : ∀ x ∈ V, env.vars x ≠ none)
    (he : e.NamesIn V F) (depth : Nat) (tag : Tag) (x : String) :
    evaluateUpTo depth tag env e ≠ .error (.unboundVariable x) := by
  have hlack : env.MayLack (.bound α) V := fun x hx hnone => absurd hnone (hbound x hx)
  have hmeets := evaluateUpTo_meets Expectation.bound_kept (fun _ => trivial) hleads hlack he depth tag
  intro h
  rw [h] at hmeets
  exact hmeets

end ExprCalculus
