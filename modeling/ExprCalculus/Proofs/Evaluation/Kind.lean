import ExprCalculus.Proofs.Evaluation.Expectation
import ExprCalculus.Proofs.Evaluation.Faults

/-!
# The kind of a value

The tag an expression is evaluated under says of what kind its value is: a number for the domain of real numbers, an
interval with its bounds in order for that of intervals, a number or a vector with components for that of vectors.  A
tag that is no domain has no values.  On the way no operation meets operands of kinds it is not defined for, although
the tag changes inside an expression.  What else it is refused for is ordinary, numerals out of range and powers of
intervals apart.

* `Expectation.kind` — what an evaluation may come to under a tag, with the faults of a given kind.
* `kind_combineUnder`, `kind_rootOf`, … — one step for each kind of node, put together in `kind_kept`.
* `evaluate_kind` — any tree, whatever names are bound to.
-/

namespace ExprCalculus

/-! ## Values and outcomes under a tag -/

namespace Tag

/-- The values an expression may have under a tag. -/
def Admits : Tag → Value Float → Prop
  | .domain .real, .real _ | .domain .vector, .real _ => True
  | .domain .vector, .vector xs => xs ≠ []
  | .domain .interval, .interval i => i.Ordered
  | _, _ => False

/-- A result of arithmetic as it may be under a tag, powers of intervals left aside. -/
abbrev Sound (tag : Tag) (r : Except (Fault Float) (Value Float)) : Prop :=
  ExprCalculus.Sound Fault.IsOrdinary tag.Admits r

variable {v : Value Float}

theorem admits_real_iff : (domain .real).Admits v ↔ ∃ x, v = .real x := by
  cases v <;> simp [Admits]

theorem admits_interval_iff : (domain .interval).Admits v ↔ ∃ i, i.Ordered ∧ v = .interval i := by
  cases v <;> simp [Admits]

theorem admits_vector_iff :
    (domain .vector).Admits v ↔ (∃ x, v = .real x) ∨ ∃ xs, xs ≠ [] ∧ v = .vector xs := by
  cases v <;> simp [Admits]

theorem not_admits_other {name : String} : ¬(other name).Admits v := by
  cases v <;> exact id

end Tag

/-- Values of the kind that belongs to the tag, and faults of arithmetic with the property `Q`.  The depth may be
exceeded if `deep`. -/
def Expectation.kind (Q : Fault Float → Prop) (deep : Prop) : Expectation Float where
  value := Tag.Admits
  error tag e :=
    match e with
    | .fault f => Q f
    | .invalidTag name => tag = .other name
    | .tooDeep => deep
    | _ => True

/-! ## One step for each kind of node -/

section

variable {Q : Fault Float → Prop} {deep : Prop}

open Outcome (ofArithmetic)

theorem kind_ofArithmetic {tag : Tag} {r : Except (Fault Float) (Value Float)} (h : ExprCalculus.Sound Q tag.Admits r) :
    (Expectation.kind Q deep).Meets tag (ofArithmetic r) := by
  obtain ⟨v, rfl, hv⟩ | ⟨f, rfl, hf⟩ := h.cases
  · exact hv
  · exact hf

theorem kind_numberUnder (x : Float) (tag : Tag) : (Expectation.kind Q deep).Meets tag (numberUnder x tag) := by
  cases tag with
  | other s => rfl
  | domain d =>
    cases d with
    | real | vector => trivial
    | interval => exact Interval.point_ordered x

theorem kind_refused (what : String) (tag : Tag) :
    (Expectation.kind Q deep).Meets tag (.refused what tag) := by
  cases tag with
  | domain d => trivial
  | other s => rfl

/-- A literal may be out of range. -/
theorem kind_literalUnder {v : Num} {tag : Tag} (hlarge : ∀ d, tag = .domain d → v.toFloat? = none → Q .tooLarge) :
    (Expectation.kind Q deep).Meets tag (literalUnder v tag) := by
  cases tag with
  | other s => rfl
  | domain d =>
    simp only [literalUnder, Scalar.ofNum]
    cases h : (Scalar.ofNum? v : Option Float) with
    | none => exact hlarge d rfl h
    | some x => exact kind_numberUnder x (.domain d)

theorem ofInterval_sound {r : Except (Fault Float) (Interval Float)} (h : Sound Fault.IsOrdinary Interval.Ordered r) :
    Tag.Sound (.domain .interval) (Value.ofInterval r) :=
  h.map fun _ hi => hi

/-- An interval to a number, the faults being those of its power. -/
theorem ofInterval_pow_sound {i : Interval Float} (hi : i.Ordered) (x : Float) :
    ExprCalculus.Sound (fun f => i.pow x = .error f) (Tag.Admits (.domain .interval)) (Value.ofInterval (i.pow x)) := by
  obtain ⟨j, hj, hordered⟩ | ⟨f, hf, _⟩ := (Interval.pow_sound hi x).cases
  · rw [hj]
    exact hordered
  · rw [hf]
    rfl

theorem combineIntervals_sound {op : BinOp} (hpower : op ≠ .power) (hmodulo : op ≠ .modulo) (i j : Interval Float) :
    Tag.Sound (.domain .interval) (Value.combineIntervals op i j) := by
  cases op with
  | plus | minus | times => exact ofInterval_sound (Interval.make_sound _ _)
  | divide => exact ofInterval_sound (Interval.div_sound i j)
  | power => exact absurd rfl hpower
  | modulo => exact absurd rfl hmodulo

theorem divideComponents_ok (y : Float) (xs : List Float) :
    ∃ qs, Value.divideComponents y xs = .ok qs ∧ qs.length = xs.length := by
  induction xs with
  | nil => exact ⟨[], rfl, rfl⟩
  | cons x xs ih =>
    obtain ⟨q, hq⟩ := Binary64.realQuotient_ok x y
    obtain ⟨qs, hqs, hlength⟩ := ih
    have hq : Scalar.divide x y = .ok q := hq
    exact ⟨q :: qs, by simp only [Value.divideComponents, hq, hqs], by simp only [List.length_cons, hlength]⟩

/-- An operation on the values of two operands that it is defined on in the domain of vectors. -/
theorem combine_vectors_sound {op : BinOp} {a b : Value Float} (hop : a.vectorOperands op b = true)
    (ha : Tag.Admits (.domain .vector) a) (hb : Tag.Admits (.domain .vector) b) :
    Tag.Sound (.domain .vector) (a.combine op b) := by
  have addition {f : Float → Float → Float} {xs ys : List Float} (hxs : xs ≠ []) (hys : ys ≠ []) :
      Tag.Sound (.domain .vector) (Value.componentwise f xs ys) := by
    unfold Value.componentwise
    split
    · show List.zipWith f xs ys ≠ []
      simp [hxs, hys]
    · exact .inl rfl
  rcases Tag.admits_vector_iff.1 ha with ⟨x, rfl⟩ | ⟨xs, hxs, rfl⟩
  · rcases Tag.admits_vector_iff.1 hb with ⟨y, rfl⟩ | ⟨ys, hys, rfl⟩
    · obtain ⟨z, hz⟩ := combine_ok op x y
      rw [hz]
      trivial
    · cases op with
      | times =>
        show ys.map (· * x) ≠ []
        simpa using hys
      | plus | minus | divide | power | modulo => cases hop
  · rcases Tag.admits_vector_iff.1 hb with ⟨y, rfl⟩ | ⟨ys, hys, rfl⟩
    · cases op with
      | times =>
        show xs.map (· * y) ≠ []
        simpa using hxs
      | divide =>
        obtain ⟨qs, hqs, hlength⟩ := divideComponents_ok y xs
        simp only [Value.combine, hqs, Except.map]
        intro hnil
        exact hxs (List.eq_nil_of_length_eq_zero (by rw [← hlength, hnil, List.length_nil]))
      | plus | minus | power | modulo => cases hop
    · cases op with
      | plus | minus => exact addition hxs hys
      | times | divide | power | modulo => cases hop

/-- A binary operation, the second operand having been evaluated under its own tag.  The faults that are not ordinary
are those of powers of intervals. -/
theorem kind_combineUnder (hQ : ∀ f : Fault Float, f.IsOrdinary → Q f) (op : BinOp) {tag : Tag} {a b : Value Float}
    (ha : tag.Admits a) (hb : (secondTag op tag).Admits b)
    (hpow : ∀ i x f, op = .power → tag = .domain .interval → a = .interval i → b = .real x → i.pow x = .error f → Q f) :
    (Expectation.kind Q deep).Meets tag (combineUnder op a b tag) := by
  match tag with
  | .other s => rfl
  | .domain .real =>
    have hsecond : secondTag op (.domain .real) = .domain .real := by simp [secondTag]
    rw [hsecond] at hb
    obtain ⟨x, rfl⟩ := Tag.admits_real_iff.1 ha
    obtain ⟨y, rfl⟩ := Tag.admits_real_iff.1 hb
    obtain ⟨z, hz⟩ := combine_ok op x y
    simp only [combineUnder, hz]
    trivial
  | .domain .vector =>
    have hsecond : secondTag op (.domain .vector) = .domain .vector := by simp [secondTag]
    rw [hsecond] at hb
    simp only [combineUnder]
    split
    · rename_i hop
      exact kind_ofArithmetic ((combine_vectors_sound hop ha hb).imp hQ)
    · trivial
  | .domain .interval =>
    obtain ⟨i, hi, rfl⟩ := Tag.admits_interval_iff.1 ha
    simp only [combineUnder]
    split
    · trivial
    · rename_i hmodulo
      apply kind_ofArithmetic
      by_cases hpower : op = .power
      · subst hpower
        obtain ⟨y, rfl⟩ := Tag.admits_real_iff.1 hb
        exact (ofInterval_pow_sound hi y).imp fun f => hpow i y f rfl rfl rfl rfl
      · have hsecond : secondTag op (.domain .interval) = .domain .interval := if_neg fun h => hpower h.1
        rw [hsecond] at hb
        obtain ⟨j, _, rfl⟩ := Tag.admits_interval_iff.1 hb
        simp only [Value.combine, if_neg hpower]
        exact (combineIntervals_sound hpower hmodulo i j).imp hQ

theorem negate_sound {d : Domain} {v : Value Float} (hv : Tag.Admits (.domain d) v) :
    Tag.Sound (.domain d) v.negate := by
  cases d with
  | real =>
    obtain ⟨x, rfl⟩ := Tag.admits_real_iff.1 hv
    trivial
  | vector =>
    rcases Tag.admits_vector_iff.1 hv with ⟨x, rfl⟩ | ⟨xs, hxs, rfl⟩
    · trivial
    · show xs.map (-·) ≠ []
      simpa using hxs
  | interval =>
    obtain ⟨i, _, rfl⟩ := Tag.admits_interval_iff.1 hv
    exact ofInterval_sound (Interval.make_sound _ _)

/-- What is a number or an interval, as the tag asks. -/
theorem Tag.isScalar_cases {tag : Tag} (htag : tag.isScalar = true) : tag = .domain .real ∨ tag = .domain .interval := by
  match tag with
  | .domain .real => exact .inl rfl
  | .domain .interval => exact .inr rfl

theorem Fn.isScalar_of_hasValues {fn : Fn} {tag : Tag} (h : fn.hasValues tag = true) : tag.isScalar = true := by
  match tag with
  | .domain .real | .domain .interval => rfl

theorem applyFunction_sound (fn : Fn) {tag : Tag} (htag : tag.isScalar = true) {v : Value Float} (hv : tag.Admits v) :
    tag.Sound (applyFunction fn v) := by
  rcases Tag.isScalar_cases htag with rfl | rfl
  · obtain ⟨x, rfl⟩ := Tag.admits_real_iff.1 hv
    trivial
  · obtain ⟨i, _, rfl⟩ := Tag.admits_interval_iff.1 hv
    have hfunction (x : Float) : Sound Fault.IsOrdinary AnyNumber (Scalar.function fn x) := trivial
    exact ofInterval_sound (Interval.image_sound (fun _ h => h) (hfunction i.lo) (hfunction i.hi))

/-- The quotient of two logarithms. -/
theorem combine_divide_sound {tag : Tag} (htag : tag.isScalar = true) {a b : Value Float} (ha : tag.Admits a)
    (hb : tag.Admits b) : tag.Sound (a.combine .divide b) := by
  rcases Tag.isScalar_cases htag with rfl | rfl
  · obtain ⟨x, rfl⟩ := Tag.admits_real_iff.1 ha
    obtain ⟨y, rfl⟩ := Tag.admits_real_iff.1 hb
    obtain ⟨z, hz⟩ := combine_ok .divide x y
    rw [hz]
    trivial
  · obtain ⟨i, _, rfl⟩ := Tag.admits_interval_iff.1 ha
    obtain ⟨j, _, rfl⟩ := Tag.admits_interval_iff.1 hb
    have hpower : BinOp.divide ≠ .power := by decide
    have hmodulo : BinOp.divide ≠ .modulo := by decide
    exact combineIntervals_sound hpower hmodulo i j

/-- The exponent of a root: the reciprocal of the index. -/
def rootExponent (index : Nat) : Except (Fault Float) Float :=
  match (Scalar.ofNum (.int 1) : Except (Fault Float) Float) with
  | .error e => .error e
  | .ok one =>
    match (Scalar.ofNum (.int index) : Except (Fault Float) Float) with
    | .error e => .error e
    | .ok n => Scalar.divide one n

theorem rootOf_of_ok {index : Nat} {x : Float} (h : rootExponent index = .ok x) (v : Value Float) :
    rootOf index v = v.combine .power (.real x) := by
  unfold rootExponent at h
  split at h
  · cases h
  · rename_i one hone
    split at h
    · cases h
    · rename_i n hn
      simp only [rootOf, hone, hn, h]

theorem rootOf_of_tooLarge {index : Nat} (h : (Num.int index).toFloat? = none) (v : Value Float) :
    rootOf index v = .error .tooLarge := by
  obtain ⟨one, hone⟩ : ∃ one, (Scalar.ofNum (.int 1) : Except (Fault Float) Float) = .ok one := ⟨_, rfl⟩
  simp only [rootOf, hone, ofNum_of_toFloat?_none h]

/-- An index in range has a reciprocal. -/
theorem rootExponent_ok {index : Nat} (h : (Num.int index).toFloat? ≠ none) : ∃ x, rootExponent index = .ok x := by
  obtain ⟨one, hone⟩ : ∃ one, (Scalar.ofNum (.int 1) : Except (Fault Float) Float) = .ok one := ⟨_, rfl⟩
  obtain ⟨n, hn⟩ := Option.ne_none_iff_exists'.1 h
  obtain ⟨x, hx⟩ := Binary64.realQuotient_ok one n
  refine ⟨x, ?_⟩
  simp only [rootExponent, hone, ofNum_of_toFloat? hn]
  exact hx

/-- A root, whose index may be out of range.  The other faults are those of powers of intervals. -/
theorem kind_rootOf {index : Nat} {tag : Tag} (htag : tag.isScalar = true) {v : Value Float} (hv : tag.Admits v)
    (hlarge : (Num.int index).toFloat? = none → Q .tooLarge)
    (hpow : ∀ i x f, tag = .domain .interval → v = .interval i → rootExponent index = .ok x → i.pow x = .error f →
      Q f) :
    (Expectation.kind Q deep).Meets tag (ofArithmetic (rootOf index v)) := by
  by_cases hindex : (Num.int index).toFloat? = none
  · rw [rootOf_of_tooLarge hindex]
    exact hlarge hindex
  obtain ⟨x, hx⟩ := rootExponent_ok hindex
  rw [rootOf_of_ok hx]
  rcases Tag.isScalar_cases htag with rfl | rfl
  · obtain ⟨y, rfl⟩ := Tag.admits_real_iff.1 hv
    obtain ⟨z, hz⟩ := combine_ok .power y x
    rw [hz]
    trivial
  · obtain ⟨i, hi, rfl⟩ := Tag.admits_interval_iff.1 hv
    exact kind_ofArithmetic ((ofInterval_pow_sound hi x).imp fun f => hpow i x f rfl rfl hx)

/-- The bounds of an interval are numbers. -/
theorem between_sound {a b : Value Float} (ha : Tag.Admits (.domain .real) a) (hb : Tag.Admits (.domain .real) b) :
    Tag.Sound (.domain .interval) (a.between b) := by
  obtain ⟨x, rfl⟩ := Tag.admits_real_iff.1 ha
  obtain ⟨y, rfl⟩ := Tag.admits_real_iff.1 hb
  exact ofInterval_sound (Interval.make_sound x y)

theorem numbers_ok {vs : List (Value Float)} (hvs : ∀ v ∈ vs, Tag.Admits (.domain .real) v) :
    ∃ xs, Value.numbers vs = .ok xs ∧ xs.length = vs.length := by
  induction vs with
  | nil => exact ⟨[], rfl, rfl⟩
  | cons v vs ih =>
    rw [List.forall_mem_cons] at hvs
    obtain ⟨x, rfl⟩ := Tag.admits_real_iff.1 hvs.1
    obtain ⟨xs, hxs, hlength⟩ := ih hvs.2
    exact ⟨x :: xs, by simp only [Value.numbers, Value.number, hxs], by simp only [List.length_cons, hlength]⟩

/-- The elements of a vector are numbers, and there is one. -/
theorem ofComponents_sound {vs : List (Value Float)} (hvs : ∀ v ∈ vs, Tag.Admits (.domain .real) v) :
    Tag.Sound (.domain .vector) (Value.ofComponents vs) := by
  unfold Value.ofComponents
  split
  · exact .inl rfl
  · rename_i hempty
    obtain ⟨xs, hxs, hlength⟩ := numbers_ok hvs
    rw [hxs]
    show xs ≠ []
    intro hnil
    rw [hnil, List.length_nil] at hlength
    exact hempty (List.isEmpty_iff_length_eq_zero.2 hlength.symm)

/-- What the inner function of a composition is worth is handed over, unless its dimension is wrong. -/
theorem kind_handedOver {inner : String} {dimension : Nat} {v : Value Float} {e : EvalError Float}
    (hv : (innerTag dimension).Admits v) (he : handedOver inner dimension v = .error e) (tag : Tag) :
    (Expectation.kind Q deep).error tag e := by
  unfold handedOver at he
  by_cases hone : dimension = 1
  · simp only [innerTag, hone, if_true] at hv
    obtain ⟨x, rfl⟩ := Tag.admits_real_iff.1 hv
    simp only [hone, if_true, Value.number] at he
    cases he
  · rw [if_neg hone] at he
    split at he
    · split at he
      · cases he
      · cases he
        trivial
    · cases he
      trivial

/-- The errors that are expected under the tag of a domain are expected under any tag. -/
theorem kind_inner {d : Domain} {e : EvalError Float} (h : (Expectation.kind Q deep).error (.domain d) e) (tag : Tag) :
    (Expectation.kind Q deep).error tag e := by
  cases e with
  | invalidTag name => cases h
  | fault f => exact h
  | tooDeep => exact h
  | unboundVariable | unboundFunction | unsupported | composeDimension | notVector => trivial

/-- Any faults may be allowed for that are ordinary, of numerals out of range and of powers of intervals. -/
theorem Expectation.kind_kept (hQ : ∀ f : Fault Float, f.IsOrdinary → Q f) (hlarge : Q .tooLarge)
    (hpow : ∀ (i : Interval Float) x f, i.Ordered → i.pow x = .error f → Q f) (deep : Prop) : (kind Q deep).Kept where
  calculated := kind_numberUnder
  literal _ _ := kind_literalUnder fun _ _ _ => hlarge
  refused := kind_refused
  vector h := kind_ofArithmetic ((ofComponents_sound h).imp hQ)
  interval ha hb := kind_ofArithmetic ((between_sound ha hb).imp hQ)
  binary op tag a b ha hb := by
    refine kind_combineUnder hQ op ha hb fun i x f _ htag hi _ => ?_
    subst htag hi
    exact hpow i x f ha
  neg h := kind_ofArithmetic ((negate_sound h).imp hQ)
  apply fn _ _ hvalues h := kind_ofArithmetic ((applyFunction_sound fn (Fn.isScalar_of_hasValues hvalues) h).imp hQ)
  quotient htag ha hb := kind_ofArithmetic ((combine_divide_sound htag ha hb).imp hQ)
  root _ tag v htag hv := by
    refine kind_rootOf htag hv (fun _ => hlarge) fun i x f htag hi _ => ?_
    subst htag hi
    exact hpow i x f hv
  dimension _ _ _ := trivial
  handedOver := kind_handedOver
  unboundFunction _ _ := trivial
  inner := kind_inner

end

/-! ## Whole trees -/

/-- Whether a fault is about the kinds of the operands. -/
def Fault.isMismatch {α : Type} : Fault α → Bool
  | .operands .. | .notNumber _ => true
  | _ => false

theorem Fault.OfPower.isMismatch {complex : Prop} {f : Fault Float} (h : f.OfPower complex) : f.isMismatch = false := by
  obtain (hclass | hclass) | rfl | ⟨rfl | rfl, _⟩ := h
  · cases f <;> first | rfl | cases hclass
  · cases f <;> first | rfl | cases hclass
  · rfl
  · rfl
  · rfl

/-- No fault is about the kinds of operands. -/
theorem Expectation.matching_kept (deep : Prop) : (kind (·.isMismatch = false) deep).Kept := by
  have hlarge : (Fault.tooLarge : Fault Float).isMismatch = false := rfl
  refine kind_kept (fun f hf => ?_) hlarge (fun i x f hi hf => ?_) deep
  · have hpower : f.OfPower False := .inl hf
    exact hpower.isMismatch
  · have hpower := Interval.pow_sound hi x
    rw [hf] at hpower
    exact Fault.OfPower.isMismatch hpower

/-- Any tree and any bindings: no names need be left out. -/
theorem evaluateUpTo_kind (depth : Nat) (tag : Tag) (env : Env Float) (e : Expr) :
    (Expectation.kind (·.isMismatch = false) True).Meets tag (evaluateUpTo depth tag env e) := by
  have hleads : env.LeadsTo (·.NamesIn Set.univ Set.univ) Set.univ Set.univ :=
    ⟨fun _ _ e _ => e.namesIn_univ, fun _ _ e _ => e.namesIn_univ⟩
  have hlack : env.MayLack (.kind (·.isMismatch = false) True) Set.univ := fun _ _ _ _ => trivial
  exact evaluateUpTo_meets (Expectation.matching_kept True) (fun _ => trivial) hleads hlack e.namesIn_univ depth tag

theorem Tag.admits_of_ok {depth : Nat} {tag : Tag} {env : Env Float} {e : Expr} {v : Value Float}
    (h : evaluateUpTo depth tag env e = .ok v) : tag.Admits v := by
  have hkind := evaluateUpTo_kind depth tag env e
  rwa [h] at hkind

/-- **The value of an expression is of the kind its tag asks for**, whatever nodes the expression is built from and
whatever names are bound to.  A number is all there is under the tag of real numbers; an interval has its bounds in
order; a vector has a component.  An operation is never asked for on operands it is not defined for, nor is another
value found where a number is needed.  Under a tag that is no domain there is no value. -/
theorem evaluate_kind (depth : Nat) (env : Env Float) (e : Expr) :
    (∀ v, evaluateUpTo depth (.domain .real) env e = .ok v → ∃ x, v = .real x) ∧
    (∀ v, evaluateUpTo depth (.domain .interval) env e = .ok v → ∃ i, v = .interval i ∧ ¬i.hi < i.lo) ∧
    (∀ v, evaluateUpTo depth (.domain .vector) env e = .ok v →
      (∃ x, v = .real x) ∨ ∃ xs, v = .vector xs ∧ xs ≠ []) ∧
    (∀ d f, evaluateUpTo depth (.domain d) env e = .error (.fault f) →
      (∀ operation left right, f ≠ .operands operation left right) ∧ ∀ kind, f ≠ .notNumber kind) ∧
    ∀ name v, evaluateUpTo depth (.other name) env e ≠ .ok v := by
  refine ⟨fun v h => Tag.admits_real_iff.1 (Tag.admits_of_ok h), fun v h => ?_, fun v h => ?_, fun d f h => ?_,
    fun name v h => Tag.not_admits_other (Tag.admits_of_ok h)⟩
  · obtain ⟨i, hi, rfl⟩ := Tag.admits_interval_iff.1 (Tag.admits_of_ok h)
    exact ⟨i, rfl, hi⟩
  · obtain ⟨x, rfl⟩ | ⟨xs, hxs, rfl⟩ := Tag.admits_vector_iff.1 (Tag.admits_of_ok h)
    · exact .inl ⟨x, rfl⟩
    · exact .inr ⟨xs, rfl, hxs⟩
  · have hkind : f.isMismatch = false := by
      have hmeets := evaluateUpTo_kind depth (.domain d) env e
      rwa [h] at hmeets
    constructor
    · rintro operation left right rfl
      cases hkind
    · rintro kind rfl
      cases hkind

end ExprCalculus
