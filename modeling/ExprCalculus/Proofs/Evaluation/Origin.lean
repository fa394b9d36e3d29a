import ExprCalculus.Proofs.Evaluation.Kind

/-!
# Where an error arises

An evaluation asks for others, of the parts of its expression and of what its names are bound to, one after the other,
and fails as soon as one of them does.  So every error arises in an evaluation that is reached on the way and fails of
itself, all that it asks for having values; and the other way round, an error that arises there is the error of the
whole.

* `Evaluation.Asks`, `Evaluation.Reaches` - the evaluations on the way.
* `outcome_error_iff` - an error is that of an origin.
* `Evaluation.Converts`, `Evaluation.Raises` - the numerals and the powers of intervals that are calculated with.
* `HasParts.meets` - one step for each kind of node, of which the parts have values.
* `exists_faults_of_error` - what an evaluation of machine numbers fails with, and where.
-/

namespace ExprCalculus

variable {α : Type}

/-- An expression to be evaluated under a tag, in an environment, through fewer than `depth` bindings. -/
structure Evaluation (α : Type) where
  depth : Nat
  tag : Tag
  env : Env α
  expr : Expr

namespace Evaluation

variable [Scalar α]

/-- What an evaluation comes to. -/
def outcome (v : Evaluation α) : Outcome α := evaluateUpTo v.depth v.tag v.env v.expr

theorem outcome_of_depth_eq_zero {v : Evaluation α} (h : v.depth = 0) : v.outcome = .error .tooDeep := by
  simp only [outcome, h, evaluateUpTo]

/-! ## Evaluations on the way -/

/-- An evaluation asks for another: of a part of its expression, once the parts before have values, or of what its name
is bound to. -/
inductive Asks : Evaluation α → Evaluation α → Prop
  | fixed {n tag env a} : Asks ⟨n + 1, tag, env, .fixed a⟩ ⟨n + 1, tag, env, a⟩
  | body {n tag env name params a} : Asks ⟨n + 1, tag, env, .custom name params a⟩ ⟨n + 1, tag, env, a⟩
  | element {n tag env before a after} (htag : tag = .domain .vector ∨ tag = .domain .real ∧ before ++ after = [])
      (hbefore : ∀ b ∈ before, ∃ y, evaluateUpTo (n + 1) (.domain .real) env b = .ok y) :
      Asks ⟨n + 1, tag, env, .vector (before ++ a :: after)⟩ ⟨n + 1, .domain .real, env, a⟩
  | lower {n env a b} : Asks ⟨n + 1, .domain .interval, env, .interval a b⟩ ⟨n + 1, .domain .real, env, a⟩
  | upper {n env a b x} (ha : evaluateUpTo (n + 1) (.domain .real) env a = .ok x) :
      Asks ⟨n + 1, .domain .interval, env, .interval a b⟩ ⟨n + 1, .domain .real, env, b⟩
  | first {n tag env op a b} : Asks ⟨n + 1, tag, env, .binary op a b⟩ ⟨n + 1, tag, env, a⟩
  | second {n tag env op a b x} (ha : evaluateUpTo (n + 1) tag env a = .ok x) :
      Asks ⟨n + 1, tag, env, .binary op a b⟩ ⟨n + 1, secondTag op tag, env, b⟩
  | negated {n d env a} : Asks ⟨n + 1, .domain d, env, .neg a⟩ ⟨n + 1, .domain d, env, a⟩
  | argument {n tag env fn a} (htag : fn.hasValues tag = true) :
      Asks ⟨n + 1, tag, env, .apply fn a⟩ ⟨n + 1, tag, env, a⟩
  | antilogarithm {n tag env base a} (htag : tag.isScalar = true) :
      Asks ⟨n + 1, tag, env, .log base a⟩ ⟨n + 1, tag, env, a⟩
  | base {n tag env base a x y} (htag : tag.isScalar = true) (ha : evaluateUpTo (n + 1) tag env a = .ok x)
      (hx : applyFunction .ln x = .ok y) : Asks ⟨n + 1, tag, env, .log base a⟩ ⟨n + 1, tag, env, base⟩
  | radicand {n tag env index a} (htag : tag.isScalar = true) :
      Asks ⟨n + 1, tag, env, .root index a⟩ ⟨n + 1, tag, env, a⟩
  | inner {n tag env f g} (hdimension : ¬(g.args.length = 0 ∨ 4 < g.args.length)) :
      Asks ⟨n + 1, tag, env, .compose f g⟩ ⟨n + 1, innerTag g.args.length, env, f⟩
  | outer {n tag env f g x xs} (hdimension : ¬(g.args.length = 0 ∨ 4 < g.args.length))
      (hf : evaluateUpTo (n + 1) (innerTag g.args.length) env f = .ok x)
      (hx : handedOver f.functionName g.args.length x = .ok xs) :
      Asks ⟨n + 1, tag, env, .compose f g⟩ ⟨n + 1, tag, env.bindArguments g.args xs, g⟩
  | ofVariable {n tag env x b} (hb : env.vars x = some (.tree b)) : Asks ⟨n + 1, tag, env, .var x⟩ ⟨n, tag, env, b⟩
  | ofFunction {n tag env f b} (hb : env.funcs f = some b) : Asks ⟨n + 1, tag, env, .call f⟩ ⟨n, tag, env, b⟩

/-- An evaluation comes to another on the way. -/
def Reaches : Evaluation α → Evaluation α → Prop := Relation.ReflTransGen Asks

/-- All that an evaluation asks for has a value. -/
def HasParts (v : Evaluation α) : Prop := ∀ w, v.Asks w → ∃ x, w.outcome = .ok x

/-- An error arises in an evaluation that has its parts and fails nevertheless. -/
structure IsOrigin (v : Evaluation α) (e : EvalError α) : Prop where
  fails : v.outcome = .error e
  hasParts : v.HasParts

variable {v w : Evaluation α} {e : EvalError α}

theorem evaluateAll_append_error {bound : Tag → Env α → Expr → Outcome α} {before : List Expr} {a : Expr}
    {tag : Tag} {env : Env α} (hbefore : ∀ b ∈ before, ∃ y, evaluateWith bound b tag env = .ok y)
    (ha : evaluateWith bound a tag env = .error e) (after : List Expr) :
    evaluateAll bound (before ++ a :: after) tag env = .error e := by
  induction before with
  | nil => simp only [List.nil_append, evaluateAll, ha]
  | cons b before ih =>
    rw [List.forall_mem_cons] at hbefore
    obtain ⟨y, hy⟩ := hbefore.1
    simp only [List.cons_append, evaluateAll, hy, ih hbefore.2]

/-- The error of what is asked for is passed on. -/
theorem Asks.outcome_of_error (h : v.Asks w) (hw : w.outcome = .error e) : v.outcome = .error e := by
  unfold outcome at hw ⊢
  cases h with
  | ofVariable hb | ofFunction hb => simp only [evaluateUpTo, evaluateWith, hb, hw]
  | @element _ _ _ _ _ after htag hbefore =>
    simp only [evaluateUpTo] at hw hbefore ⊢
    have hall := evaluateAll_append_error hbefore hw after
    obtain rfl | ⟨rfl, hsingle⟩ := htag
    · simp only [evaluateWith, hall]
    · obtain ⟨rfl, rfl⟩ := List.append_eq_nil_iff.1 hsingle
      simp only [evaluateWith, hall]
      rfl
  | fixed | body => simpa only [evaluateUpTo, evaluateWith] using hw
  | lower | first | negated =>
    simp only [evaluateUpTo] at hw ⊢
    simp only [evaluateWith, hw, if_true]
  | upper hx | second hx =>
    simp only [evaluateUpTo] at hw hx ⊢
    simp only [evaluateWith, hw, hx, if_true]
  | argument htag | antilogarithm htag | radicand htag | inner htag =>
    simp only [evaluateUpTo] at hw ⊢
    simp only [evaluateWith, hw, htag, if_true, if_false]
  | base htag ha hx | outer htag ha hx =>
    simp only [evaluateUpTo] at hw ha ⊢
    simp only [evaluateWith, hw, ha, hx, htag, if_true, if_false]

/-- A domain changes to another domain, but not to that of intervals. -/
theorem Asks.domain (h : v.Asks w) {d : Domain} (hv : v.tag = .domain d) :
    ∃ d', w.tag = .domain d' ∧ (d' = .interval → d = .interval) := by
  cases h with
  | lower | upper | element => exact ⟨.real, rfl, nofun⟩
  | inner => exact ⟨_, rfl, by split <;> nofun⟩
  | @second _ _ _ op =>
    obtain rfl : _ = Tag.domain d := hv
    unfold secondTag
    split
    · exact ⟨.real, rfl, nofun⟩
    · exact ⟨d, rfl, id⟩
  | _ => exact ⟨d, hv, id⟩

theorem Reaches.outcome_of_error (h : v.Reaches w) (hw : w.outcome = .error e) : v.outcome = .error e := by
  induction h with
  | refl => exact hw
  | tail _ hasks ih => exact ih (hasks.outcome_of_error hw)

theorem Reaches.domain (h : v.Reaches w) {d : Domain} (hv : v.tag = .domain d) :
    ∃ d', w.tag = .domain d' ∧ (d' = .interval → d = .interval) := by
  induction h with
  | refl => exact ⟨d, hv, id⟩
  | tail _ hasks ih =>
    obtain ⟨d', hd', hinterval⟩ := ih
    obtain ⟨d'', hd'', hinterval'⟩ := hasks.domain hd'
    exact ⟨d'', hd'', hinterval ∘ hinterval'⟩

/-- What is asked for is a part, or what a name is bound to, with one binding less to lead through. -/
theorem Asks.decreases (h : v.Asks w) :
    Prod.Lex (· < ·) (· < ·) (w.depth, sizeOf w.expr) (v.depth, sizeOf v.expr) := by
  cases h with
  | ofVariable | ofFunction => exact .left _ _ (Nat.lt_succ_self _)
  | @element n tag env before a after _ _ =>
    have hmem : a ∈ before ++ a :: after := by simp
    have hsize := List.sizeOf_lt_of_mem hmem
    refine .right _ ?_
    simp only [Expr.vector.sizeOf_spec]
    omega
  | _ =>
    refine .right _ ?_
    simp only [Expr.fixed.sizeOf_spec, Expr.custom.sizeOf_spec, Expr.interval.sizeOf_spec, Expr.binary.sizeOf_spec,
      Expr.neg.sizeOf_spec, Expr.apply.sizeOf_spec, Expr.log.sizeOf_spec, Expr.root.sizeOf_spec,
      Expr.compose.sizeOf_spec]
    omega

/-- An error arises somewhere on the way. -/
theorem exists_origin (v : Evaluation α) (h : v.outcome = .error e) : ∃ w, v.Reaches w ∧ w.IsOrigin e := by
  by_cases hparts : v.HasParts
  · exact ⟨v, .refl, h, hparts⟩
  · unfold HasParts at hparts
    push Not at hparts
    obtain ⟨w, hasks, hw⟩ := hparts
    have hsame : w.outcome = .error e := by
      cases houtcome : w.outcome with
      | ok x => exact absurd houtcome (hw x)
      | error e' => rw [← hasks.outcome_of_error houtcome, h]
    obtain ⟨u, hreaches, horigin⟩ := exists_origin w hsame
    exact ⟨u, .head hasks hreaches, horigin⟩
termination_by (v.depth, sizeOf v.expr)
decreasing_by exact hasks.decreases

/-- **An error is the error of an evaluation on the way**, of which it is not that of a part. -/
theorem outcome_error_iff : v.outcome = .error e ↔ ∃ w, v.Reaches w ∧ w.IsOrigin e := by
  constructor
  · exact exists_origin v
  · rintro ⟨w, hreaches, horigin⟩
    exact hreaches.outcome_of_error horigin.fails

/-! ## The origins of an evaluation of machine numbers -/

/-- An evaluation calculates with a number as it is written: a literal, or the index of a root. -/
inductive Converts : Evaluation Float → Num → Prop
  | literal {n d env m} : Converts ⟨n + 1, .domain d, env, .number m⟩ m
  | index {n tag env k a x} (htag : tag.isScalar = true) (ha : evaluateUpTo (n + 1) tag env a = .ok x) :
      Converts ⟨n + 1, tag, env, .root k a⟩ (.int (k : Nat))

/-- An evaluation raises an interval to a power: the values of the operands of a power, or that of the radicand and the
reciprocal of the index of a root. -/
inductive Raises : Evaluation Float → Interval Float → Float → Prop
  | power {n env a b i x} (ha : evaluateUpTo (n + 1) (.domain .interval) env a = .ok (.interval i))
      (hb : evaluateUpTo (n + 1) (.domain .real) env b = .ok (.real x)) :
      Raises ⟨n + 1, .domain .interval, env, .binary .power a b⟩ i x
  | root {n env k a i x} (ha : evaluateUpTo (n + 1) (.domain .interval) env a = .ok (.interval i))
      (hx : rootExponent k = .ok x) : Raises ⟨n + 1, .domain .interval, env, .root k a⟩ i x

/-- The faults that an evaluation may have of itself. -/
inductive Faults (v : Evaluation Float) : Fault Float → Prop
  | ordinary {f} (h : f.IsOrdinary) : Faults v f
  | numeral {m} (h : v.Converts m) (hlarge : m.toFloat? = none) : Faults v .tooLarge
  | power {i x f} (h : v.Raises i x) (hpow : i.pow x = .error f) : Faults v f

section

variable {v w : Evaluation Float} {i : Interval Float} {x : Float}

theorem Converts.outcome {m : Num} (h : v.Converts m) (hlarge : m.toFloat? = none) :
    v.outcome = .error (.fault .tooLarge) := by
  unfold Evaluation.outcome
  cases h with
  | literal => simp only [evaluateUpTo, evaluateWith, literalUnder, ofNum_of_toFloat?_none hlarge]
  | index htag ha =>
    simp only [evaluateUpTo] at ha ⊢
    simp only [evaluateWith, htag, if_true, ha, rootOf_of_tooLarge hlarge]
    rfl

theorem Raises.outcome (h : v.Raises i x) : v.outcome = .ofArithmetic (Value.ofInterval (i.pow x)) := by
  unfold Evaluation.outcome
  cases h with
  | power ha hb =>
    simp only [evaluateUpTo] at ha hb ⊢
    have hsecond : secondTag .power (.domain .interval) = .domain .real := rfl
    simp only [evaluateWith, ha, hsecond, hb]
    rfl
  | root ha hx =>
    simp only [evaluateUpTo] at ha ⊢
    have hscalar : (Tag.domain .interval).isScalar = true := rfl
    simp only [evaluateWith, hscalar, if_true, ha, rootOf_of_ok hx]
    rfl

theorem Raises.outcome_of_error (h : v.Raises i x) {f : Fault Float} (hpow : i.pow x = .error f) :
    v.outcome = .error (.fault f) := by
  rw [h.outcome, hpow]
  rfl

theorem Raises.ordered (h : v.Raises i x) : i.Ordered := by
  cases h with
  | power ha | root ha => exact Tag.admits_of_ok ha

/-- What each element of a list has if those before it have it, all have. -/
theorem forall_mem_of_forall_before {β : Type} {P : β → Prop} {l : List β}
    (h : ∀ before a after, l = before ++ a :: after → (∀ b ∈ before, P b) → P a) : ∀ a ∈ l, P a := by
  induction l with
  | nil => exact List.forall_mem_nil P
  | cons a l ih =>
    have ha : P a := h [] a l rfl (List.forall_mem_nil P)
    refine List.forall_mem_cons.2 ⟨ha, ih fun before b after hl hbefore => ?_⟩
    exact h (a :: before) b after (by rw [hl, List.cons_append]) (List.forall_mem_cons.2 ⟨ha, hbefore⟩)

/-! ## One step for each kind of node -/

theorem HasParts.exists_value (h : v.HasParts) (hw : v.Asks w) : ∃ y, w.outcome = .ok y ∧ w.tag.Admits y := by
  obtain ⟨y, hy⟩ := h w hw
  exact ⟨y, hy, Tag.admits_of_ok hy⟩

/-- What an evaluation may come to that has its parts. -/
def expected (v : Evaluation Float) : Expectation Float := .kind v.Faults (v.depth = 0)

theorem expected_of_sound {r : Except (Fault Float) (Value Float)} (h : v.tag.Sound r) :
    v.expected.Meets v.tag (.ofArithmetic r) :=
  kind_ofArithmetic (h.imp fun _ => .ordinary)

/-- What only hands on a value. -/
theorem HasParts.expected_of_asks (h : v.HasParts) (hw : v.Asks w) (htag : w.tag = v.tag) :
    v.expected.Meets v.tag w.outcome := by
  obtain ⟨y, hy, hadmits⟩ := h.exists_value hw
  rw [hy, ← htag]
  exact hadmits

variable {n : Nat} {tag : Tag} {env : Env Float}

theorem outcome_succ (n : Nat) (tag : Tag) (env : Env Float) (e : Expr) :
    outcome ⟨n + 1, tag, env, e⟩ = evaluateWith (evaluateUpTo n) e tag env := rfl

theorem evaluateAll_ok {es : List Expr} (h : ∀ a ∈ es, ∃ y, evaluateUpTo (n + 1) tag env a = .ok y) :
    ∃ vs, evaluateAll (evaluateUpTo n) es tag env = .ok vs ∧ ∀ v ∈ vs, tag.Admits v := by
  induction es with
  | nil => exact ⟨[], rfl, List.forall_mem_nil _⟩
  | cons a es ih =>
    rw [List.forall_mem_cons] at h
    obtain ⟨y, hy⟩ := h.1
    obtain ⟨vs, hvs, hadmits⟩ := ih h.2
    refine ⟨y :: vs, ?_, List.forall_mem_cons.2 ⟨Tag.admits_of_ok hy, hadmits⟩⟩
    rw [evaluateUpTo] at hy
    simp only [evaluateAll, hy, hvs]

/-- The elements of a vector that are asked for one after the other. -/
theorem HasParts.elements {es : List Expr} (h : HasParts ⟨n + 1, tag, env, .vector es⟩)
    (htag : tag = .domain .vector ∨ tag = .domain .real ∧ es.length = 1) :
    ∃ vs, evaluateAll (evaluateUpTo n) es (.domain .real) env = .ok vs ∧ ∀ v ∈ vs, Tag.Admits (.domain .real) v := by
  refine evaluateAll_ok (forall_mem_of_forall_before fun before a after hes hbefore => ?_)
  subst hes
  refine h _ (.element (htag.imp_right fun hone => ⟨hone.1, ?_⟩) hbefore)
  have hlength := hone.2
  rw [List.length_append, List.length_cons] at hlength
  exact List.eq_nil_of_length_eq_zero (by rw [List.length_append]; omega)

theorem HasParts.vector {es : List Expr} (h : HasParts ⟨n + 1, tag, env, .vector es⟩) :
    (expected ⟨n + 1, tag, env, .vector es⟩).Meets tag (outcome ⟨n + 1, tag, env, .vector es⟩) := by
  rw [outcome_succ]
  simp only [evaluateWith]
  split
  · obtain ⟨vs, hvs, hadmits⟩ := h.elements (.inl rfl)
    simp only [hvs]
    exact expected_of_sound (ofComponents_sound hadmits)
  · split
    · rename_i hone
      obtain ⟨vs, hvs, hadmits⟩ := h.elements (.inr ⟨rfl, hone⟩)
      simp only [hvs]
      cases vs with
      | nil => exact kind_refused _ _
      | cons y vs => exact hadmits y List.mem_cons_self
    · exact kind_refused _ _
  · exact kind_refused _ _

theorem HasParts.interval {a b : Expr} (h : HasParts ⟨n + 1, tag, env, .interval a b⟩) :
    (expected ⟨n + 1, tag, env, .interval a b⟩).Meets tag (outcome ⟨n + 1, tag, env, .interval a b⟩) := by
  rw [outcome_succ, evaluateWith]
  split
  · rename_i htag
    subst htag
    obtain ⟨x, hx, hlo⟩ := h.exists_value .lower
    obtain ⟨y, hy, hhi⟩ := h.exists_value (.upper hx)
    rw [outcome_succ] at hx hy
    simp only [hx, hy]
    exact expected_of_sound (between_sound hlo hhi)
  · exact kind_refused _ _

theorem HasParts.binary {op : BinOp} {a b : Expr} (h : HasParts ⟨n + 1, tag, env, .binary op a b⟩) :
    (expected ⟨n + 1, tag, env, .binary op a b⟩).Meets tag (outcome ⟨n + 1, tag, env, .binary op a b⟩) := by
  obtain ⟨x, hx, hfirst⟩ := h.exists_value .first
  obtain ⟨y, hy, hsecond⟩ := h.exists_value (.second hx)
  have hpow (i z f) (hop : op = .power) (htag : tag = .domain .interval) (hi : x = .interval i) (hz : y = .real z)
      (hf : i.pow z = .error f) : Faults ⟨n + 1, tag, env, .binary op a b⟩ f := by
    subst hop htag hi hz
    exact .power (.power hx hy) hf
  rw [outcome_succ] at hx hy ⊢
  simp only [evaluateWith, hx, hy]
  exact kind_combineUnder (fun _ => .ordinary) op hfirst hsecond hpow

theorem HasParts.log {base a : Expr} (h : HasParts ⟨n + 1, tag, env, .log base a⟩) :
    (expected ⟨n + 1, tag, env, .log base a⟩).Meets tag (outcome ⟨n + 1, tag, env, .log base a⟩) := by
  rw [outcome_succ, evaluateWith]
  split
  · rename_i htag
    have hln {x : Value Float} (hx : tag.Admits x) : tag.Sound (applyFunction .ln x) := applyFunction_sound .ln htag hx
    obtain ⟨x, hx, harg⟩ := h.exists_value (.antilogarithm htag)
    obtain ⟨y, hy, hsound⟩ | ⟨f, hf, hordinary⟩ := (hln harg).cases
    · obtain ⟨z, hz, hbase⟩ := h.exists_value (.base htag hx hy)
      rw [outcome_succ] at hx hz
      obtain ⟨w, hw, hsound'⟩ | ⟨f, hf, hordinary⟩ := (hln hbase).cases
      · simp only [hx, hy, hz, hw]
        exact expected_of_sound (combine_divide_sound htag hsound hsound')
      · simp only [hx, hy, hz, hf]
        exact .ordinary hordinary
    · rw [outcome_succ] at hx
      simp only [hx, hf]
      exact .ordinary hordinary
  · exact kind_refused _ _

theorem HasParts.root {index : Nat} {a : Expr} (h : HasParts ⟨n + 1, tag, env, .root index a⟩) :
    (expected ⟨n + 1, tag, env, .root index a⟩).Meets tag (outcome ⟨n + 1, tag, env, .root index a⟩) := by
  rw [outcome_succ, evaluateWith]
  split
  · rename_i htag
    obtain ⟨x, hx, hadmits⟩ := h.exists_value (.radicand htag)
    have hpow (i z f) (htag : tag = .domain .interval) (hi : x = .interval i) (hz : rootExponent index = .ok z)
        (hf : i.pow z = .error f) : Faults ⟨n + 1, tag, env, .root index a⟩ f := by
      subst htag hi
      exact .power (.root hx hz) hf
    have hlarge : (Num.int index).toFloat? = none → Faults ⟨n + 1, tag, env, .root index a⟩ .tooLarge :=
      .numeral (.index htag hx)
    rw [outcome_succ] at hx
    simp only [hx]
    exact kind_rootOf htag hadmits hlarge hpow
  · exact kind_refused _ _

theorem HasParts.compose {f g : Expr} (h : HasParts ⟨n + 1, tag, env, .compose f g⟩) :
    (expected ⟨n + 1, tag, env, .compose f g⟩).Meets tag (outcome ⟨n + 1, tag, env, .compose f g⟩) := by
  rw [outcome_succ, evaluateWith]
  split
  · trivial
  · rename_i hdimension
    obtain ⟨x, hx, hadmits⟩ := h.exists_value (.inner hdimension)
    have houter (xs) (hover : handedOver f.functionName g.args.length x = .ok xs) :=
      h.expected_of_asks (.outer hdimension hx hover) rfl
    rw [outcome_succ] at hx
    simp only [hx]
    split
    · rename_i hover
      exact kind_handedOver hadmits hover tag
    · rename_i xs hover
      exact houter xs hover

/-- An evaluation that has its parts comes to what its node makes of them. -/
theorem HasParts.meets (h : v.HasParts) : v.expected.Meets v.tag v.outcome := by
  obtain ⟨depth, tag, env, e⟩ := v
  cases depth with
  | zero => exact rfl
  | succ n =>
    cases e with
    | vector => exact h.vector
    | interval => exact h.interval
    | binary => exact h.binary
    | log => exact h.log
    | root => exact h.root
    | compose => exact h.compose
    | fixed a =>
      rw [outcome_succ, evaluateWith]
      exact h.expected_of_asks .fixed rfl
    | custom name params body =>
      rw [outcome_succ, evaluateWith]
      exact h.expected_of_asks .body rfl
    | number m =>
      refine kind_literalUnder fun d htag hlarge => ?_
      obtain rfl : tag = .domain d := htag
      exact .numeral .literal hlarge
    | var x =>
      rw [outcome_succ, evaluateWith]
      split
      · trivial
      · exact kind_numberUnder _ tag
      · rename_i b hb
        exact h.expected_of_asks (.ofVariable hb) rfl
    | call f =>
      rw [outcome_succ, evaluateWith]
      split
      · trivial
      · rename_i b hb
        exact h.expected_of_asks (.ofFunction hb) rfl
    | neg a =>
      cases tag with
      | other s => rfl
      | domain d =>
        obtain ⟨x, hx, hadmits⟩ := h.exists_value .negated
        rw [outcome_succ] at hx ⊢
        simp only [evaluateWith, hx]
        exact expected_of_sound (negate_sound hadmits)
    | apply fn a =>
      rw [outcome_succ, evaluateWith]
      split
      · rename_i htag
        obtain ⟨x, hx, hadmits⟩ := h.exists_value (.argument htag)
        rw [outcome_succ] at hx
        simp only [hx]
        exact expected_of_sound (applyFunction_sound fn (Fn.isScalar_of_hasValues htag) hadmits)
      · exact kind_refused _ _

/-! ## What an evaluation fails with -/

/-- What an error is where it arises. -/
theorem IsOrigin.expected {e : EvalError Float} (h : v.IsOrigin e) : v.expected.error v.tag e := by
  have hmeets := h.hasParts.meets
  rwa [h.fails] at hmeets

theorem Raises.tag_eq (h : v.Raises i x) : v.tag = .domain .interval := by
  cases h <;> rfl

/-- **Faults arise on the way.**  A fault is ordinary, or that of a numeral out of range that an evaluation on the way
calculates with, or that of a power of an interval that one raises. -/
theorem exists_faults_of_error {f : Fault Float} (h : v.outcome = .error (.fault f)) :
    ∃ w, v.Reaches w ∧ w.Faults f := by
  obtain ⟨w, hreaches, horigin⟩ := exists_origin v h
  exact ⟨w, hreaches, horigin.expected⟩

/-- The depth is exceeded where an evaluation may not lead through any more bindings. -/
theorem exists_depth_eq_zero_of_error (h : v.outcome = .error .tooDeep) : ∃ w, v.Reaches w ∧ w.depth = 0 := by
  obtain ⟨w, hreaches, horigin⟩ := exists_origin v h
  exact ⟨w, hreaches, horigin.expected⟩

theorem outcome_ne_invalidTag {d : Domain} (hd : v.tag = .domain d) (name : String) :
    v.outcome ≠ .error (.invalidTag name) := by
  intro h
  obtain ⟨w, hreaches, horigin⟩ := exists_origin v h
  obtain ⟨d', hd', -⟩ := hreaches.domain hd
  have hother : w.tag = .other name := horigin.expected
  rw [hd'] at hother
  cases hother

end

end Evaluation

end ExprCalculus
