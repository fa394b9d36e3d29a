import Mathlib.Data.List.Forall2
import ExprCalculus.Proofs.Evaluation.Names
import ExprCalculus.Value.Real

/-!
# Vectors are calculated with component by component

Take a tree of numbers, variables and vector literals under the operations, the variables being bound to numbers and
vector literals, and no vector within another.  Put one component in the place of each vector literal, in the tree and
in the bindings, and evaluate as a real number.  The numbers that come out, one for each component, are what the tree
comes to as a vector.  All the vector literals have the dimension of the result then; where there are none, the result
is a number.

The order of a product matters only where a number stands before a vector: the vector is scaled by it from the right.
So all that is asked of arithmetic is that products commute.

* `combine_component` — one step for each operation.
* `components_vector`, `components_binary`, … — one step for each kind of tree.
* `evaluate_componentwise` — whole trees.
-/

namespace ExprCalculus

variable {α : Type}

/-! ## Components -/

/-- The component of a value; a number is each of its components. -/
def Value.component? (i : Nat) : Value α → Option α
  | .real x => some x
  | .vector xs => xs[i]?
  | .interval _ => none

/-- The dimension of a vector. -/
def Value.dimension? : Value α → Option Nat
  | .vector xs => some xs.length
  | _ => none

/-- The tree with a component in the place of each vector literal. -/
def Expr.component (i : Nat) : Expr → Expr
  | .vector es => es[i]?.getD (.vector es)
  | .fixed e => .fixed (component i e)
  | .binary op a b => .binary op (component i a) (component i b)
  | .neg a => .neg (component i a)
  | e => e

/-- A binding with a component in the place of each vector literal. -/
def Binding.component (i : Nat) : Binding α → Binding α
  | .tree e => .tree (e.component i)
  | .number x => .number x

/-- The environment with a component in the place of each vector literal that a variable is bound to. -/
def Env.component (env : Env α) (i : Nat) : Env α :=
  { env with vars := fun x => (env.vars x).map (Binding.component i) }

/-! ## Trees and bindings -/

/-- The variables that are not bound to vector literals. -/
def Env.scalarNames (env : Env α) : Set String := {x | ∀ es, env.vars x ≠ some (.tree (.vector es))}

/-- Trees of numbers, variables and vector literals under the operations.  The elements of vectors look up variables of
`V` only. -/
inductive Expr.Vectorial (V : Set String) : Expr → Prop where
  | number (v : Num) : Vectorial V (.number v)
  | var (x : String) : Vectorial V (.var x)
  | fixed {e : Expr} (he : Vectorial V e) : Vectorial V (.fixed e)
  | vector {es : List Expr} (hes : ∀ e ∈ es, e.NamesIn V ∅) : Vectorial V (.vector es)
  | binary (op : BinOp) {a b : Expr} (ha : Vectorial V a) (hb : Vectorial V b) : Vectorial V (.binary op a b)
  | neg {a : Expr} (ha : Vectorial V a) : Vectorial V (.neg a)

/-- Bindings to numbers and to vector literals. -/
inductive Binding.Vectorial (V : Set String) : Binding α → Prop where
  | calculated (x : α) : Vectorial V (.number x)
  | number (v : Num) : Vectorial V (.tree (.number v))
  | vector {es : List Expr} (hes : ∀ e ∈ es, e.NamesIn V ∅) : Vectorial V (.tree (.vector es))

/-- An environment that binds variables to numbers and to vector literals, whose elements look up no variable bound to
a vector literal. -/
def Env.Vectorial (env : Env α) : Prop := ∀ x b, env.vars x = some b → b.Vectorial env.scalarNames

/-- The vector literals that evaluation reaches in a tree and through its variables. -/
def Expr.vectors (env : Env α) : Expr → List (List Expr)
  | .vector es => [es]
  | .var x =>
    match env.vars x with
    | some (.tree (.vector es)) => [es]
    | _ => []
  | .fixed e | .neg e => vectors env e
  | .binary _ a b => vectors env a ++ vectors env b
  | _ => []

variable [Scalar α] {env : Env α} {a b : Expr} {depth : Nat}

/-- Whatever looks up no variable bound to a vector has one outcome before and after components took the place of
vectors. -/
theorem evaluateUpTo_component (henv : env.Vectorial) {e : Expr} (he : e.NamesIn env.scalarNames ∅) (depth : Nat)
    (tag : Tag) (i : Nat) : evaluateUpTo depth tag (env.component i) e = evaluateUpTo depth tag env e := by
  have halike : env.Alike (Expr.Paired (fun m n => m = n) env.scalarNames ∅) env.scalarNames ∅ (env.component i) := by
    refine ⟨fun x hx => ?_, fun f hf => hf.elim⟩
    have hcomponent : (env.component i).vars x = (env.vars x).map (Binding.component i) := rfl
    rw [hcomponent]
    cases hb : env.vars x with
    | none => exact .none
    | some b =>
      cases henv x b hb with
      | calculated y => exact .some (.number y)
      | number v => exact .some (.tree ⟨trivial, by simp [Expr.component, Expr.sameBy]⟩)
      | vector _ => exact absurd hb (hx _)
  exact (evaluateUpTo_alike (fun m n h => by rw [of_decide_eq_true h]) halike he depth tag).symm

theorem Outcome.eq_ok_of_ofArithmetic {α : Type} {r : Except (Fault α) (Value α)} {v : Value α}
    (h : Outcome.ofArithmetic r = .ok v) : r = .ok v := by
  cases r with
  | error f => cases h
  | ok w =>
    cases h
    rfl

/-! ## One step for each operation -/

theorem divideComponents_forall₂ {y : α} {xs qs : List α} (h : Value.divideComponents y xs = .ok qs) :
    List.Forall₂ (fun x q => Scalar.divide x y = .ok q) xs qs := by
  induction xs generalizing qs with
  | nil =>
    cases h
    exact .nil
  | cons x xs ih =>
    rw [Value.divideComponents] at h
    split at h
    · cases h
    rename_i q hq
    split at h
    · cases h
    rename_i qs' hqs
    cases h
    exact .cons hq (ih hqs)

/-- A value is made of two others by an operation: each component of it comes from the components of the others, and
it has the dimension of a vector among them. -/
structure Value.MadeOf (op : BinOp) (u w v : Value α) : Prop where
  component : ∀ i z, v.component? i = some z →
    ∃ x y, u.component? i = some x ∧ w.component? i = some y ∧ Scalar.combine op x y = .ok z
  dimension : ∀ n, u.dimension? = some n ∨ w.dimension? = some n → v.dimension? = some n

open Value (MadeOf)

theorem combine_numbers {op : BinOp} {x y : α} {v : Value α} (h : (Value.real x).combine op (.real y) = .ok v) :
    MadeOf op (.real x) (.real y) v := by
  cases hz : Scalar.combine op x y with
  | error f =>
    simp only [Value.combine, hz] at h
    cases h
  | ok z =>
    simp only [Value.combine, hz] at h
    cases h
    refine ⟨fun i z' hz' => ?_, fun n hn => by rcases hn with hn | hn <;> cases hn⟩
    cases hz'
    exact ⟨x, y, rfl, rfl, hz⟩

/-- A number times a vector: the only place where the order of a product changes. -/
theorem combine_number_vector (hcomm : ∀ x y : α, x * y = y * x) (x : α) (ys : List α) :
    MadeOf .times (.real x) (.vector ys) (Value.scale ys x) := by
  refine ⟨fun i z hz => ?_, fun n hn => ?_⟩
  · obtain ⟨y, hy, rfl⟩ := Option.map_eq_some_iff.1 ((List.getElem?_map ..).symm.trans hz)
    exact ⟨x, y, rfl, hy, congrArg Except.ok (hcomm x y)⟩
  · rcases hn with hn | hn
    · cases hn
    · simpa [Value.dimension?, Value.scale] using hn

theorem combine_vector_number (xs : List α) (y : α) : MadeOf .times (.vector xs) (.real y) (Value.scale xs y) := by
  refine ⟨fun i z hz => ?_, fun n hn => ?_⟩
  · obtain ⟨x, hx, rfl⟩ := Option.map_eq_some_iff.1 ((List.getElem?_map ..).symm.trans hz)
    exact ⟨x, y, hx, rfl, rfl⟩
  · rcases hn with hn | hn
    · simpa [Value.dimension?, Value.scale] using hn
    · cases hn

theorem divide_vector_number {xs qs : List α} {y : α} (h : Value.divideComponents y xs = .ok qs) :
    MadeOf .divide (.vector xs) (.real y) (.vector qs) := by
  obtain ⟨hlength, hget⟩ := List.forall₂_iff_get.1 (divideComponents_forall₂ h)
  refine ⟨fun i z hz => ?_, fun n hn => ?_⟩
  · obtain ⟨hi, rfl⟩ := List.getElem?_eq_some_iff.1 hz
    have hi' : i < xs.length := hlength ▸ hi
    exact ⟨xs[i], y, List.getElem?_eq_getElem hi', rfl, hget i hi' hi⟩
  · rcases hn with hn | hn
    · rw [← hn]
      exact congrArg some hlength.symm
    · cases hn

theorem combine_vectors {op : BinOp} {f : α → α → α} (hop : ∀ x y, Scalar.combine op x y = .ok (f x y))
    {xs ys : List α} {v : Value α} (h : Value.componentwise f xs ys = .ok v) :
    MadeOf op (.vector xs) (.vector ys) v := by
  unfold Value.componentwise at h
  split at h
  · rename_i hlength
    cases h
    refine ⟨fun i z hz => ?_, fun n hn => ?_⟩
    · obtain ⟨x, y, hx, hy, rfl⟩ := List.getElem?_zipWith_eq_some.1 hz
      exact ⟨x, y, hx, hy, hop x y⟩
    · simp only [Value.dimension?, List.length_zipWith, Option.some_inj] at hn ⊢
      omega
  · cases h

/-- Whatever operation is defined on two values in the domain of vectors. -/
theorem combine_madeOf (hcomm : ∀ x y : α, x * y = y * x) {op : BinOp} {u w v : Value α}
    (hop : u.vectorOperands op w = true) (h : u.combine op w = .ok v) : MadeOf op u w v := by
  cases u with
  | interval j => cases op <;> cases w <;> cases hop
  | real x =>
    cases w with
    | interval j => cases op <;> cases hop
    | real y => exact combine_numbers h
    | vector ys =>
      cases op with
      | times =>
        cases h
        exact combine_number_vector hcomm x ys
      | plus | minus | divide | power | modulo => cases hop
  | vector xs =>
    cases w with
    | interval j => cases op <;> cases hop
    | real y =>
      cases op with
      | times =>
        cases h
        exact combine_vector_number xs y
      | divide =>
        cases hqs : Value.divideComponents y xs with
        | error f =>
          simp only [Value.combine, hqs] at h
          cases h
        | ok qs =>
          simp only [Value.combine, hqs] at h
          cases h
          exact divide_vector_number hqs
      | plus | minus | power | modulo => cases hop
    | vector ys =>
      cases op with
      | plus => exact combine_vectors (fun _ _ => rfl) h
      | minus => exact combine_vectors (fun _ _ => rfl) h
      | times | divide | power | modulo => cases hop

theorem negate_component {u v : Value α} (h : u.negate = .ok v) :
    (∀ i z, v.component? i = some z → ∃ x, u.component? i = some x ∧ z = -x) ∧ v.dimension? = u.dimension? := by
  cases u with
  | real x =>
    cases h
    refine ⟨fun i z hz => ⟨x, rfl, ?_⟩, rfl⟩
    cases hz
    rfl
  | vector xs =>
    cases h
    refine ⟨fun i z hz => ?_, by simp [Value.dimension?]⟩
    obtain ⟨x, hx, rfl⟩ := Option.map_eq_some_iff.1 ((List.getElem?_map ..).symm.trans hz)
    exact ⟨x, hx, rfl⟩
  | interval j =>
    cases hj : j.neg with
    | error f =>
      simp only [Value.negate, Value.ofInterval, hj] at h
      cases h
    | ok k =>
      simp only [Value.negate, Value.ofInterval, hj] at h
      cases h
      refine ⟨fun i z hz => ?_, rfl⟩
      cases hz

/-! ## One step for each kind of tree -/

/-- The value of a tree as a vector is made of the values of its components, and has the dimension of the vectors
reached. -/
structure Components (depth : Nat) (env : Env α) (e : Expr) (v : Value α) : Prop where
  real : ∀ i x, v.component? i = some x →
    evaluateUpTo depth (.domain .real) (env.component i) (e.component i) = .ok (.real x)
  vectors : ∀ es ∈ e.vectors env, v.dimension? = some es.length

variable {v : Value α}

theorem components_number {w : Num} (h : evaluateUpTo (depth + 1) (.domain .vector) env (.number w) = .ok v) :
    Components (depth + 1) env (.number w) v := by
  simp only [evaluateUpTo, evaluateWith, literalUnder] at h
  split at h
  · rename_i y hy
    cases h
    refine ⟨fun i x hx => ?_, fun es hes => by cases hes⟩
    cases hx
    simp only [Expr.component, evaluateUpTo, evaluateWith, literalUnder, hy, numberUnder]
  · cases h

theorem components_fixed {e : Expr} (he : ∀ v, evaluateUpTo (depth + 1) (.domain .vector) env e = .ok v →
    Components (depth + 1) env e v) (h : evaluateUpTo (depth + 1) (.domain .vector) env (.fixed e) = .ok v) :
    Components (depth + 1) env (.fixed e) v := by
  simp only [evaluateUpTo, evaluateWith] at he h
  obtain ⟨hreal, hvectors⟩ := he v h
  refine ⟨fun i x hx => ?_, hvectors⟩
  simpa only [Expr.component, evaluateUpTo, evaluateWith] using hreal i x hx

theorem evaluateAll_forall₂ {bound : Tag → Env α → Expr → Outcome α} {es : List Expr} {tag : Tag}
    {vs : List (Value α)} (h : evaluateAll bound es tag env = .ok vs) :
    List.Forall₂ (fun e v => evaluateWith bound e tag env = .ok v) es vs := by
  induction es generalizing vs with
  | nil =>
    cases h
    exact .nil
  | cons e es ih =>
    rw [evaluateAll] at h
    split at h
    · cases h
    rename_i v hv
    split at h
    · cases h
    rename_i vs' hvs
    cases h
    exact .cons hv (ih hvs)

theorem eq_map_of_numbers {α : Type} {vs : List (Value α)} {xs : List α} (h : Value.numbers vs = .ok xs) :
    vs = xs.map .real := by
  induction vs generalizing xs with
  | nil =>
    cases h
    rfl
  | cons v vs ih =>
    rw [Value.numbers] at h
    split at h
    · cases h
    rename_i x hx
    split at h
    · cases h
    rename_i xs' hxs
    cases h
    cases v with
    | real y =>
      cases hx
      rw [ih hxs, List.map_cons]
    | vector ys => cases hx
    | interval j => cases hx

/-- The elements of a vector literal are evaluated as real numbers. -/
theorem forall₂_of_vector {es : List Expr} (h : evaluateUpTo (depth + 1) (.domain .vector) env (.vector es) = .ok v) :
    ∃ xs, v = .vector xs ∧
      List.Forall₂ (fun e x => evaluateUpTo (depth + 1) (.domain .real) env e = .ok (.real x)) es xs := by
  simp only [evaluateUpTo, evaluateWith] at h
  split at h
  · cases h
  rename_i vs hvs
  have hall := evaluateAll_forall₂ hvs
  unfold Value.ofComponents at h
  split at h
  · cases h
  · cases hxs : Value.numbers vs with
    | error f =>
      rw [hxs] at h
      cases h
    | ok xs =>
      rw [hxs] at h
      cases h
      rw [eq_map_of_numbers hxs, List.forall₂_map_right_iff] at hall
      exact ⟨xs, rfl, hall⟩

theorem components_vector (henv : env.Vectorial) {es : List Expr} (hes : ∀ e ∈ es, e.NamesIn env.scalarNames ∅)
    (h : evaluateUpTo (depth + 1) (.domain .vector) env (.vector es) = .ok v) :
    Components (depth + 1) env (.vector es) v := by
  obtain ⟨xs, rfl, hall⟩ := forall₂_of_vector h
  obtain ⟨hlength, hget⟩ := List.forall₂_iff_get.1 hall
  refine ⟨fun i x hx => ?_, fun ds hds => ?_⟩
  · obtain ⟨hi, rfl⟩ := List.getElem?_eq_some_iff.1 hx
    have hi' : i < es.length := hlength ▸ hi
    have hcomponent : (Expr.vector es).component i = es[i] := by
      simp [Expr.component, hi']
    rw [hcomponent, evaluateUpTo_component henv (hes _ (List.getElem_mem hi'))]
    exact hget i hi' hi
  · rw [Expr.vectors, List.mem_singleton] at hds
    rw [hds, hlength]
    rfl

theorem components_var (henv : env.Vectorial) {x : String}
    (h : evaluateUpTo (depth + 1) (.domain .vector) env (.var x) = .ok v) :
    Components (depth + 1) env (.var x) v := by
  have hcomponent (i : Nat) : (env.component i).vars x = (env.vars x).map (Binding.component i) := rfl
  cases hb : env.vars x with
  | none =>
    simp only [evaluateUpTo, evaluateWith, hb] at h
    cases h
  | some b =>
    cases henv x b hb with
    | calculated y =>
      simp only [evaluateUpTo, evaluateWith, hb] at h
      cases h
      refine ⟨fun i z hz => ?_, fun es hes => by simp [Expr.vectors, hb] at hes⟩
      cases hz
      simp only [Expr.component, evaluateUpTo, evaluateWith, hcomponent, hb, Option.map_some, Binding.component,
        numberUnder]
    | number w =>
      simp only [evaluateUpTo, evaluateWith, hb] at h
      cases depth with
      | zero => cases h
      | succ depth =>
        refine ⟨fun i z hz => ?_, fun es hes => by simp [Expr.vectors, hb] at hes⟩
        have hvalue := (components_number h).real i z hz
        simp only [Expr.component, evaluateUpTo, evaluateWith, hcomponent, hb, Option.map_some,
          Binding.component] at hvalue ⊢
        exact hvalue
    | vector hes =>
      rename_i es
      simp only [evaluateUpTo, evaluateWith, hb] at h
      cases depth with
      | zero => cases h
      | succ depth =>
        obtain ⟨hreal, hvectors⟩ := components_vector henv hes h
        refine ⟨fun i z hz => ?_, fun ds hds => hvectors ds ?_⟩
        · have hvalue := hreal i z hz
          simp only [Expr.component, evaluateUpTo, evaluateWith, hcomponent, hb, Option.map_some,
            Binding.component] at hvalue ⊢
          exact hvalue
        · simpa [Expr.vectors, hb] using hds

theorem components_binary (hcomm : ∀ x y : α, x * y = y * x) {op : BinOp}
    (ha : ∀ v, evaluateUpTo (depth + 1) (.domain .vector) env a = .ok v → Components (depth + 1) env a v)
    (hb : ∀ v, evaluateUpTo (depth + 1) (.domain .vector) env b = .ok v → Components (depth + 1) env b v)
    (h : evaluateUpTo (depth + 1) (.domain .vector) env (.binary op a b) = .ok v) :
    Components (depth + 1) env (.binary op a b) v := by
  have htag : secondTag op (.domain .vector) = .domain .vector := by simp [secondTag]
  have htag' : secondTag op (.domain .real) = .domain .real := by simp [secondTag]
  simp only [evaluateUpTo, evaluateWith, htag] at ha hb h
  split at h
  · cases h
  rename_i u hu
  split at h
  · cases h
  rename_i w hw
  simp only [combineUnder] at h
  split at h
  · rename_i hop
    obtain ⟨hreal, hvectors⟩ := ha u hu
    obtain ⟨hreal', hvectors'⟩ := hb w hw
    obtain ⟨hcomponent, hdimension⟩ := combine_madeOf hcomm hop (Outcome.eq_ok_of_ofArithmetic h)
    refine ⟨fun i z hz => ?_, fun es hes => hdimension _ ?_⟩
    · obtain ⟨x, y, hx, hy, hxy⟩ := hcomponent i z hz
      have hx := hreal i x hx
      have hy := hreal' i y hy
      simp only [Expr.component, evaluateUpTo, evaluateWith, htag'] at hx hy ⊢
      simp only [hx, hy, combineUnder, Value.combine, hxy, Except.map, Outcome.ofArithmetic]
    · rw [Expr.vectors, List.mem_append] at hes
      exact hes.imp (hvectors es) (hvectors' es)
  · cases h

theorem components_neg (ha : ∀ v, evaluateUpTo (depth + 1) (.domain .vector) env a = .ok v →
    Components (depth + 1) env a v) (h : evaluateUpTo (depth + 1) (.domain .vector) env (.neg a) = .ok v) :
    Components (depth + 1) env (.neg a) v := by
  simp only [evaluateUpTo, evaluateWith] at ha h
  split at h
  · cases h
  rename_i u hu
  obtain ⟨hcomponent, hdimension⟩ := negate_component (Outcome.eq_ok_of_ofArithmetic h)
  obtain ⟨hreal, hvectors⟩ := ha u hu
  refine ⟨fun i z hz => ?_, fun es hes => hdimension.trans (hvectors es hes)⟩
  obtain ⟨x, hx, rfl⟩ := hcomponent i z hz
  have hx := hreal i x hx
  simp only [Expr.component, evaluateUpTo, evaluateWith] at hx ⊢
  simp only [hx, Value.negate, Outcome.ofArithmetic]

/-! ## Whole trees -/

theorem components_of_vectorial (hcomm : ∀ x y : α, x * y = y * x) (henv : env.Vectorial) {e : Expr}
    (he : e.Vectorial env.scalarNames) (depth : Nat) :
    ∀ v, evaluateUpTo (depth + 1) (.domain .vector) env e = .ok v → Components (depth + 1) env e v := by
  induction he with
  | number w => exact fun v h => components_number h
  | var x => exact fun v h => components_var henv h
  | fixed _ ih => exact fun v h => components_fixed ih h
  | vector hes => exact fun v h => components_vector henv hes h
  | binary op _ _ iha ihb => exact fun v h => components_binary hcomm iha ihb h
  | neg _ ih => exact fun v h => components_neg ih h

/-- A tree that reaches no vector literal has no other components than itself. -/
theorem component_of_vectors_eq_nil {α : Type} {env : Env α} {e : Expr} (he : e.Vectorial env.scalarNames)
    (hnil : e.vectors env = []) (i : Nat) :
    e.component i = e ∧ e.NamesIn env.scalarNames ∅ := by
  induction he with
  | number v => exact ⟨rfl, trivial⟩
  | var x =>
    refine ⟨rfl, fun es hes => ?_⟩
    simp [Expr.vectors, hes] at hnil
  | fixed _ ih =>
    obtain ⟨hcomponent, hnames⟩ := ih hnil
    exact ⟨congrArg Expr.fixed hcomponent, hnames⟩
  | vector hes => cases hnil
  | binary op _ _ iha ihb =>
    rw [Expr.vectors, List.append_eq_nil_iff] at hnil
    obtain ⟨ha, hnames⟩ := iha hnil.1
    obtain ⟨hb, hnames'⟩ := ihb hnil.2
    exact ⟨by rw [Expr.component, ha, hb], hnames, hnames'⟩
  | neg _ ih =>
    obtain ⟨hcomponent, hnames⟩ := ih hnil
    exact ⟨congrArg Expr.neg hcomponent, hnames⟩

/-- **Evaluation as a vector is real evaluation component by component**: where it comes to a vector, every vector
literal reached has its dimension, and each of its components is the real value of the tree with that component in the
place of each vector literal; where it comes to a number, that is the real value of the tree. -/
theorem evaluate_componentwise (hcomm : ∀ x y : α, x * y = y * x) (henv : env.Vectorial) {e : Expr}
    (he : e.Vectorial env.scalarNames) (depth : Nat) :
    (∀ xs, evaluateUpTo depth (.domain .vector) env e = .ok (.vector xs) →
      (∀ es ∈ e.vectors env, es.length = xs.length) ∧
      ∀ i (hi : i < xs.length),
        evaluateUpTo depth (.domain .real) (env.component i) (e.component i) = .ok (.real xs[i])) ∧
    ∀ x, evaluateUpTo depth (.domain .vector) env e = .ok (.real x) →
      evaluateUpTo depth (.domain .real) env e = .ok (.real x) := by
  cases depth with
  | zero => exact ⟨nofun, nofun⟩
  | succ depth =>
    have hcomponents := components_of_vectorial hcomm henv he depth
    refine ⟨fun xs h => ?_, fun x h => ?_⟩
    · obtain ⟨hreal, hvectors⟩ := hcomponents (.vector xs) h
      refine ⟨fun es hes => (Option.some.inj (hvectors es hes)).symm, fun i hi => ?_⟩
      exact hreal i xs[i] (List.getElem?_eq_getElem hi)
    · obtain ⟨hreal, hvectors⟩ := hcomponents (.real x) h
      have hnil : e.vectors env = [] :=
        List.eq_nil_iff_forall_not_mem.2 fun es hes => by cases hvectors es hes
      obtain ⟨hcomponent, hnames⟩ := component_of_vectors_eq_nil he hnil 0
      have hvalue := hreal 0 x rfl
      rwa [hcomponent, evaluateUpTo_component henv hnames] at hvalue

/-! ## Machine numbers -/

open Float.Model UnpackedFloat in
/-- Products of machine numbers commute. -/
theorem Binary64.mul_comm (x y : Float) : x * y = y * x := by
  have hsign (s t : Sign) : s * t = t * s := by cases s <;> cases t <;> rfl
  have hunpacked (u w : UnpackedFloat) : UnpackedFloat.mul .binary64 u w = UnpackedFloat.mul .binary64 w u := by
    cases u with
    | notANumber => cases w <;> rfl
    | infinity s =>
      cases w with
      | notANumber | zero t => rfl
      | infinity t | finite t n f hn => exact congrArg UnpackedFloat.infinity (hsign s t)
    | zero s =>
      cases w with
      | notANumber | infinity t => rfl
      | zero t | finite t n f hn => exact congrArg UnpackedFloat.zero (hsign s t)
    | finite s m e hm =>
      cases w with
      | notANumber => rfl
      | infinity t => exact congrArg UnpackedFloat.infinity (hsign s t)
      | zero t => exact congrArg UnpackedFloat.zero (hsign s t)
      | finite t n f hn =>
        show roundWithAccuracy .binary64 (s * t) (m * n) (e + f) .exact =
          roundWithAccuracy .binary64 (t * s) (n * m) (f + e) .exact
        rw [hsign s t, Nat.mul_comm m n, Int.add_comm e f]
  exact congrArg (fun u => Float.ofModel (pack u)) (hunpacked x.toModel.unpack y.toModel.unpack)

/-- The tree `2 * [1, x] + v / 2`. -/
def Expr.scaledSum : Expr :=
  .plus (.times (.int 2) (.vector [.int 1, .var "x"])) (.divide (.var "v") (.int 2))

/-- Binds `x` to a number and `v` to a vector literal. -/
def Env.withVector : Env Float :=
  (Env.empty.bind "x" (.tree (.int 3))).bind "v" (.tree (.vector [.int 5, .var "x"]))

theorem Env.withVector_vectorial : Env.withVector.Vectorial := by
  have hx : "x" ∈ Env.withVector.scalarNames := nofun
  intro name b hb
  unfold Env.withVector Env.bind at hb
  simp only at hb
  split at hb
  · cases hb
    refine .vector fun e he => ?_
    obtain rfl | rfl : e = .int 5 ∨ e = .var "x" := by simpa using he
    · trivial
    · exact hx
  split at hb
  · cases hb
    exact .number _
  · cases hb

/-- A number before a vector, a vector over a number, and a sum of vectors. -/
theorem evaluate_componentwise_scaledSum :
    (∀ es ∈ Expr.scaledSum.vectors Env.withVector, es.length = 2) ∧
    evaluate (.domain .real) (Env.withVector.component 0) (Expr.scaledSum.component 0) = .ok (.real 4.5) ∧
    evaluate (.domain .real) (Env.withVector.component 1) (Expr.scaledSum.component 1) = .ok (.real 7.5) := by
  have hvector : evaluate (.domain .vector) Env.withVector Expr.scaledSum = .ok (.vector [4.5, 7.5]) := rfl
  have hx : "x" ∈ Env.withVector.scalarNames := nofun
  have he : Expr.scaledSum.Vectorial Env.withVector.scalarNames := by
    refine .binary .plus (.binary .times (.number _) (.vector fun e he => ?_)) (.binary .divide (.var "v") (.number _))
    obtain rfl | rfl : e = .int 1 ∨ e = .var "x" := by simpa using he
    · trivial
    · exact hx
  obtain ⟨hlength, hreal⟩ :=
    (evaluate_componentwise Binary64.mul_comm Env.withVector_vectorial he defaultDepth).1 _ hvector
  exact ⟨hlength, hreal 0 (by decide), hreal 1 (by decide)⟩

end ExprCalculus
