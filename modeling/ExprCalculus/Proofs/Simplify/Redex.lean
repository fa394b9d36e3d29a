import ExprCalculus.Expr.Build
import ExprCalculus.Proofs.Simplify.Settling

/-!
# The trees that a pass leaves as they are

A redex is a node to which a rule of simplification applies at once, its parts being what they are.  A tree that a pass
leaves as it is has no redex, but that is not to be seen from the rules alone: a rule at a node looks at parts that the
pass has rewritten already, and several rewritings together might give the tree back.  They do not, since each of them
makes the tree lighter.

* `simplifyBinary_eq_iff`, `simplifyNeg_eq_iff`, `simplifyFunction_eq_iff` — a rule leaves a node as it is if and only
  if the node is no redex.
* `simplify_eq_iff` — a pass leaves a tree as it is if and only if the root is no redex and it leaves the parts as they
  are.
* `simplify_equal_iff_no_redex` — the fixed points of a pass are the trees without a redex.
-/

namespace ExprCalculus.Expr

/-! ## Redexes -/

/-- Whether a tree is a negation. -/
def isNegation : Expr → Bool
  | .neg _ => true
  | _ => false

/-- Whether a tree is a negation or a literal below zero. -/
def isOpposite : Expr → Bool
  | .neg _ => true
  | .number n => n.isNegative
  | _ => false

/-- Whether a tree is a product whose second factor is a natural logarithm. -/
def isMultipleOfLn : Expr → Bool
  | .binary .times _ (.apply .ln _) => true
  | _ => false

/-- Whether a tree is a square. -/
def isSquare : Expr → Bool
  | .binary .power _ n => n.isValue 2
  | _ => false

/-- Whether a tree is rounded up or down. -/
def isRounded : Expr → Bool
  | .apply .ceil _ | .apply .floor _ => true
  | _ => false

/-- Whether an operation on these operands is a redex. -/
def isRedexOf (op : BinOp) (a b : Expr) : Bool :=
  match op with
  | .plus | .minus => a.isValue 0 || b.isValue 0 || b.isOpposite
  | .times =>
    a.isValue 0 || a.isValue 1 || a.isNegation || b.isValue 0 || b.isValue 1 || b.isNegation
  | .divide => a.isValue 0 || b.isValue 1 || a.isNegation || b.isNegation
  | .power => b.isValue 0 || b.isValue 1 || a.isValue 1
  | .modulo => false

/-- Whether a default function of this argument is a redex. -/
def isRedexAt (fn : Fn) (a : Expr) : Bool :=
  match fn with
  | .exp => a.isValue 0 || a.isValue 1 || a.isMultipleOfLn
  | .ln => a.isValue 1
  | .sqrt => a.isValue 0 || a.isValue 1 || a.isSquare
  | .sin | .cos | .tan => a.isValue 0
  | .ceil | .floor => a.isRounded
  | .arcsin | .arccos | .arctan | .abs | .sgn => false

/-- Whether a tree is a redex.  An argument of a default function is fixed without a mark, unless it is a variable or
is marked itself; so every mark is a redex, that of an argument that wraps a variable too. -/
def isRedex : Expr → Bool
  | .fixed _ => true
  | .binary op a b => isRedexOf op a b
  | .neg a => a.isNegation || a.isValue 0
  | .apply fn a => isRedexAt fn a
  | _ => false

/-! ## Subtrees -/

/-- The direct parts of a tree, the parameters of a custom function left out. -/
def parts : Expr → List Expr
  | .custom _ _ body => [body]
  | e => e.children

/-- The trees in a tree, itself included and the parameters of custom functions left out. -/
inductive Subtree : Expr → Expr → Prop where
  | refl (e : Expr) : Subtree e e
  | part {s p e : Expr} (hp : p ∈ e.parts) (hs : Subtree s p) : Subtree s e

/-- What holds of all subtrees holds of the tree itself and of the subtrees of its parts. -/
theorem forall_subtree_iff {P : Expr → Prop} {e : Expr} :
    (∀ s, Subtree s e → P s) ↔ P e ∧ ∀ p ∈ e.parts, ∀ s, Subtree s p → P s := by
  constructor
  · intro h
    exact ⟨h e (.refl e), fun p hp s hs => h s (.part hp hs)⟩
  · rintro ⟨he, hparts⟩ s hs
    cases hs with
    | refl => exact he
    | part hp hs => exact hparts _ hp s hs

theorem weight_le_weightOf {p : Expr} {es : List Expr} (hp : p ∈ es) : p.weight ≤ weightOf es := by
  induction es with
  | nil => cases hp
  | cons e es ih =>
    rw [weightOf]
    obtain rfl | hp := List.mem_cons.mp hp
    · omega
    · have := ih hp
      omega

/-- A tree is heavier than its parts. -/
theorem weight_part_lt {p e : Expr} (hp : p ∈ e.parts) : p.weight < e.weight := by
  cases e with
  | number n | var x | call f => cases hp
  | vector es =>
    have hle : p.weight ≤ weightOf es := weight_le_weightOf hp
    simp only [weight]
    omega
  | binary op a b =>
    have ha := a.weight_pos
    have hb := b.weight_pos
    have hab : a.weight + b.weight < (binary op a b).weight := by
      cases op <;> simp only [weight, BinOp.weight] <;> omega
    simp only [parts, children, List.mem_cons, List.not_mem_nil, or_false] at hp
    obtain rfl | rfl := hp <;> omega
  | fixed a | neg a | apply fn a | root n a | custom name params a =>
    simp only [parts, children, List.mem_singleton] at hp
    subst hp
    simp only [weight]
    omega
  | interval a b | log a b | compose a b =>
    simp only [parts, children, List.mem_cons, List.not_mem_nil, or_false] at hp
    simp only [weight]
    obtain rfl | rfl := hp <;> omega

/-! ## Rules -/

/-- A part is no node that it is a part of. -/
theorem part_ne {p e : Expr} (hp : p ∈ e.parts) : p ≠ e := by
  rintro rfl
  exact (weight_part_lt hp).ne rfl

variable {a b : Expr}

theorem left_ne (op : BinOp) : a ≠ .binary op a b := part_ne List.mem_cons_self

theorem right_ne (op : BinOp) : b ≠ .binary op a b := part_ne (List.mem_cons_of_mem _ List.mem_cons_self)

theorem simplifySum_eq_iff (a b : Expr) : simplifySum a b = plus a b ↔ isRedexOf .plus a b = false := by
  unfold simplifySum
  split
  · rename_i ha
    exact iff_of_false (right_ne .plus) (by simp [isRedexOf, ha])
  split
  · rename_i hb
    exact iff_of_false (left_ne .plus) (by simp [isRedexOf, hb])
  rename_i ha hb
  split
  · exact iff_of_false (by simp) (by simp [isRedexOf, isOpposite])
  · split
    · rename_i hn
      exact iff_of_false (by simp) (by simp [isRedexOf, isOpposite, hn])
    · rename_i hn
      exact iff_of_true rfl (by simp [isRedexOf, isOpposite, ha, hb, hn])
  · rename_i hneg hnumber
    refine iff_of_true rfl ?_
    cases b <;> simp_all [isRedexOf, isOpposite]

theorem simplifyDifference_eq_iff (a b : Expr) :
    simplifyDifference a b = minus a b ↔ isRedexOf .minus a b = false := by
  unfold simplifyDifference
  split
  · rename_i hb
    exact iff_of_false (left_ne .minus) (by simp [isRedexOf, hb])
  split
  · rename_i ha
    exact iff_of_false (by simp) (by simp [isRedexOf, ha])
  rename_i hb ha
  split
  · exact iff_of_false (by simp) (by simp [isRedexOf, isOpposite])
  · split
    · rename_i hn
      exact iff_of_false (by simp) (by simp [isRedexOf, isOpposite, hn])
    · rename_i hn
      exact iff_of_true rfl (by simp [isRedexOf, isOpposite, ha, hb, hn])
  · rename_i hneg hnumber
    refine iff_of_true rfl ?_
    cases b <;> simp_all [isRedexOf, isOpposite]

theorem not_isNegation {e : Expr} (h : ∀ c, e = .neg c → False) : e.isNegation = false := by
  cases e with
  | neg c => exact absurd rfl (h c)
  | _ => rfl

theorem simplifyProduct_eq_iff (a b : Expr) : simplifyProduct a b = times a b ↔ isRedexOf .times a b = false := by
  unfold simplifyProduct
  split
  · rename_i h
    rw [Bool.or_eq_true] at h
    refine iff_of_false (by simp) ?_
    rcases h with h | h <;> simp [isRedexOf, h]
  rename_i hzero
  split
  · rename_i ha
    exact iff_of_false (right_ne .times) (by simp [isRedexOf, ha])
  rename_i hone
  split
  · rename_i hb
    exact iff_of_false (left_ne .times) (by simp [isRedexOf, hb])
  rename_i hone'
  split
  · rename_i c d _ _
    refine iff_of_false ?_ (by simp [isRedexOf, isNegation])
    intro h
    injection h with _ hc _
    exact part_ne List.mem_cons_self hc
  · exact iff_of_false (by simp) (by simp [isRedexOf, isNegation])
  · exact iff_of_false (by simp) (by simp [isRedexOf, isNegation])
  · rename_i _ ha hb
    refine iff_of_true rfl ?_
    simp_all [isRedexOf, not_isNegation]

theorem simplifyQuotient_eq_iff (a b : Expr) :
    simplifyQuotient a b = divide a b ↔ isRedexOf .divide a b = false := by
  unfold simplifyQuotient
  split
  · rename_i ha
    exact iff_of_false (by simp) (by simp [isRedexOf, ha])
  rename_i hzero
  split
  · rename_i hb
    exact iff_of_false (left_ne .divide) (by simp [isRedexOf, hb])
  rename_i hone
  split
  · refine iff_of_false ?_ (by simp [isRedexOf, isNegation])
    intro h
    injection h with _ hc _
    exact part_ne List.mem_cons_self hc
  · exact iff_of_false (by simp) (by simp [isRedexOf, isNegation])
  · exact iff_of_false (by simp) (by simp [isRedexOf, isNegation])
  · rename_i _ ha hb
    refine iff_of_true rfl ?_
    simp_all [isRedexOf, not_isNegation]

theorem simplifyPower_eq_iff (a b : Expr) : simplifyPower a b = power a b ↔ isRedexOf .power a b = false := by
  unfold simplifyPower
  split
  · rename_i hb
    exact iff_of_false (by simp) (by simp [isRedexOf, hb])
  rename_i hzero
  split
  · rename_i hb
    exact iff_of_false (left_ne .power) (by simp [isRedexOf, hb])
  rename_i hone
  split
  · rename_i ha
    exact iff_of_false (by simp) (by simp [isRedexOf, ha])
  · rename_i ha
    exact iff_of_true rfl (by simp [isRedexOf, hzero, hone, ha])

/-- The rule of an operation leaves the node as it is if and only if the node is no redex. -/
theorem simplifyBinary_eq_iff (op : BinOp) (a b : Expr) :
    simplifyBinary op a b = .binary op a b ↔ isRedexOf op a b = false := by
  cases op with
  | plus => exact simplifySum_eq_iff a b
  | minus => exact simplifyDifference_eq_iff a b
  | times => exact simplifyProduct_eq_iff a b
  | divide => exact simplifyQuotient_eq_iff a b
  | power => exact simplifyPower_eq_iff a b
  | modulo => exact iff_of_true rfl rfl

/-- The rule of negation does so too. -/
theorem simplifyNeg_eq_iff (a : Expr) : simplifyNeg a = .neg a ↔ (Expr.neg a).isRedex = false := by
  unfold simplifyNeg
  split
  · rename_i c
    refine iff_of_false ?_ (by simp [isRedex, isNegation])
    intro h
    have hlt : c.weight < (Expr.neg (.neg c)).weight := by
      simp only [weight]
      omega
    exact hlt.ne (congrArg weight h)
  · rename_i hneg
    split
    · rename_i hzero
      exact iff_of_false (part_ne List.mem_cons_self) (by simp [isRedex, hzero])
    · rename_i hzero
      exact iff_of_true rfl (by simp [isRedex, not_isNegation hneg, hzero])

theorem simplifyExp_eq_iff (a : Expr) : simplifyExp a = .apply .exp a ↔ isRedexAt .exp a = false := by
  unfold simplifyExp
  split
  · rename_i h
    exact iff_of_false (by simp) (by simp [isRedexAt, h])
  rename_i hzero
  split
  · rename_i h
    exact iff_of_false (by simp) (by simp [isRedexAt, h])
  rename_i hone
  split
  · exact iff_of_false (by simp) (by simp [isRedexAt, isMultipleOfLn])
  · rename_i hmultiple
    refine iff_of_true rfl ?_
    have hmultiple : a.isMultipleOfLn = false := by
      unfold isMultipleOfLn
      split
      · exact absurd rfl (hmultiple _ _)
      · rfl
    simp [isRedexAt, hzero, hone, hmultiple]

theorem simplifySqrt_eq_iff (a : Expr) : simplifySqrt a = .apply .sqrt a ↔ isRedexAt .sqrt a = false := by
  unfold simplifySqrt
  split
  · rename_i x n
    split
    · rename_i hsquare
      refine iff_of_false ?_ (by simp [isRedexAt, isSquare, hsquare])
      intro h
      have hlt : x.weight < (Expr.apply .sqrt (power x n)).weight := by
        simp only [weight, BinOp.weight]
        omega
      exact hlt.ne (congrArg weight h)
    · rename_i hsquare
      have hvalue (k : Int) : (power x n).isValue k = false := rfl
      exact iff_of_true rfl (by simp [isRedexAt, isSquare, hsquare, hvalue])
  · rename_i hpower
    have hsquare : a.isSquare = false := by
      unfold isSquare
      split
      · exact absurd rfl (hpower _ _)
      · rfl
    split
    · rename_i h
      rw [Bool.or_eq_true] at h
      refine iff_of_false (part_ne List.mem_cons_self) ?_
      rcases h with h | h <;> simp [isRedexAt, h]
    · rename_i h
      refine iff_of_true rfl ?_
      simpa [isRedexAt, hsquare] using h

theorem simplifyRounding_eq_iff (fn : Fn) (a : Expr) :
    simplifyRounding fn a = .apply fn a ↔ a.isRounded = false := by
  unfold simplifyRounding
  split
  · exact iff_of_false (part_ne List.mem_cons_self) (by simp [isRounded])
  · exact iff_of_false (part_ne List.mem_cons_self) (by simp [isRounded])
  · rename_i hceil hfloor
    refine iff_of_true rfl ?_
    unfold isRounded
    split
    · exact absurd rfl (hceil _)
    · exact absurd rfl (hfloor _)
    · rfl

/-- A function that has a known value at one argument. -/
theorem known_eq_iff (fn : Fn) (a : Expr) (k : Int) {known : Expr} (hknown : known ≠ .apply fn a) :
    (if a.isValue k then known else .apply fn a) = .apply fn a ↔ a.isValue k = false := by
  split
  · rename_i h
    exact iff_of_false hknown (by simp [h])
  · rename_i h
    exact iff_of_true rfl (by simp [h])

/-- The rule of a default function leaves the node as it is if and only if the node is no redex. -/
theorem simplifyFunction_eq_iff (fn : Fn) (a : Expr) :
    simplifyFunction fn a = .apply fn a ↔ isRedexAt fn a = false := by
  cases fn with
  | exp => exact simplifyExp_eq_iff a
  | ln => exact known_eq_iff .ln a 1 (by simp)
  | sqrt => exact simplifySqrt_eq_iff a
  | sin => exact known_eq_iff .sin a 0 (part_ne List.mem_cons_self)
  | cos => exact known_eq_iff .cos a 0 (by simp)
  | tan => exact known_eq_iff .tan a 0 (part_ne List.mem_cons_self)
  | ceil => exact simplifyRounding_eq_iff .ceil a
  | floor => exact simplifyRounding_eq_iff .floor a
  | arcsin | arccos | arctan | abs | sgn => exact iff_of_true rfl rfl

/-! ## A pass -/

/-- A rule that gives a node back, after a pass over the parts, was given the parts as they are. -/
theorem Lighter.eq_of_eq {e mid node : Expr} (hrule : Lighter e mid) (hparts : Lighter mid node) (h : e = node) :
    mid = node := by
  refine hparts.resolve_right ?_
  subst h
  exact hrule.weight_le.not_gt

theorem simplify_binary_eq_iff (op : BinOp) (a b : Expr) :
    simplify (.binary op a b) = .binary op a b ↔ isRedexOf op a b = false ∧ simplify a = a ∧ simplify b = b := by
  show simplifyBinary op (simplify a) (simplify b) = .binary op a b ↔ _
  constructor
  · intro h
    have hparts := Lighter.binary op (simplify_eq_or_weight_lt a) (simplify_eq_or_weight_lt b)
    have hsame := Lighter.eq_of_eq (simplifyBinary_weight op _ _) hparts h
    injection hsame with _ ha hb
    rw [ha, hb] at h
    exact ⟨(simplifyBinary_eq_iff op a b).mp h, ha, hb⟩
  · rintro ⟨hredex, ha, hb⟩
    rw [ha, hb]
    exact (simplifyBinary_eq_iff op a b).mpr hredex

/-- The rule of a node with one part gives the node back, after a pass over the part, if and only if it does so before
and the part stays as it is. -/
theorem rule_simplify_eq_iff {node rule : Expr → Expr} (hnode : Function.Injective node)
    (hweight : ∀ x y : Expr, x.weight < y.weight → (node x).weight < (node y).weight)
    (hrule : ∀ x, Lighter (rule x) (node x)) (a : Expr) :
    rule (simplify a) = node a ↔ rule a = node a ∧ simplify a = a := by
  constructor
  · intro h
    have hpart : Lighter (node (simplify a)) (node a) := (simplify_eq_or_weight_lt a).map node hweight
    have ha : simplify a = a := hnode (Lighter.eq_of_eq (hrule _) hpart h)
    rw [ha] at h
    exact ⟨h, ha⟩
  · rintro ⟨h, ha⟩
    rw [ha]
    exact h

theorem simplify_neg_eq_iff (a : Expr) :
    simplify (.neg a) = .neg a ↔ (Expr.neg a).isRedex = false ∧ simplify a = a := by
  show simplifyNeg (simplify a) = .neg a ↔ _
  rw [← simplifyNeg_eq_iff]
  refine rule_simplify_eq_iff (fun x y h => ?_) (fun x y h => ?_) simplifyNeg_weight a
  · injection h
  · simp only [weight]
    omega

theorem simplify_apply_eq_iff (fn : Fn) (a : Expr) :
    simplify (.apply fn a) = .apply fn a ↔ isRedexAt fn a = false ∧ simplify a = a := by
  show simplifyFunction fn (simplify a) = .apply fn a ↔ _
  rw [← simplifyFunction_eq_iff]
  refine rule_simplify_eq_iff (fun x y h => ?_) (fun x y h => ?_) (simplifyFunction_weight fn) a
  · injection h
  · simp only [weight]
    omega

/-- A function in a composition stays as it is if and only if a pass leaves it so: it is not wrapped up, and what is
wrapped up is none. -/
theorem asFunction_eq_iff {f : Expr} (hf : f.isFunction = true) :
    asFunction (simplify f) f = f ↔ simplify f = f := by
  constructor
  · intro h
    rw [asFunction] at h
    split at h
    · exact h
    · rename_i hlost
      -- only a custom function could be what wraps it up, and none loses its shape
      cases f with
      | custom name params body => exact absurd rfl hlost
      | _ => simp at h
  · intro h
    rw [h, asFunction, if_pos hf]

theorem simplifyAll_eq_iff (es : List Expr) : simplifyAll es = es ↔ ∀ e ∈ es, simplify e = e := by
  induction es with
  | nil => simp [simplifyAll]
  | cons e es ih => simp [simplifyAll, ih]

/-- **A pass leaves a tree as it is if and only if** the root is no redex and it leaves the parts as they are. -/
theorem simplify_eq_iff {e : Expr} (hcompose : ∀ f g, e = .compose f g → f.isFunction = true ∧ g.isFunction = true) :
    simplify e = e ↔ e.isRedex = false ∧ ∀ p ∈ e.parts, simplify p = p := by
  cases e with
  | number n | var x | call f => simp [simplify, isRedex, parts, children]
  | fixed a =>
    have hlt : (simplify a).weight < (Expr.fixed a).weight := by
      have := (simplify_eq_or_weight_lt a).weight_le
      simp only [weight]
      omega
    refine iff_of_false ?_ (by simp [isRedex])
    intro h
    exact hlt.ne (congrArg weight h)
  | vector es => simp [simplify, isRedex, parts, children, simplifyAll_eq_iff]
  | interval a b | log a b => simp [simplify, isRedex, parts, children]
  | root n a | custom name params a => simp [simplify, isRedex, parts, children]
  | binary op a b =>
    rw [simplify_binary_eq_iff]
    simp [isRedex, parts, children]
  | neg a =>
    rw [simplify_neg_eq_iff]
    simp [parts, children]
  | apply fn a =>
    rw [simplify_apply_eq_iff]
    simp [isRedex, parts, children]
  | compose f g =>
    obtain ⟨hf, hg⟩ := hcompose f g rfl
    simp [simplify, isRedex, parts, children, asFunction_eq_iff hf, asFunction_eq_iff hg]

/-! ## Whole trees -/

/-- Whether every composition in a tree is one of two functions, as compositions are built. -/
def ComposesFunctions (e : Expr) : Prop :=
  ∀ s, Subtree s e → ∀ f g, s = .compose f g → f.isFunction = true ∧ g.isFunction = true

theorem composesFunctions_iff {e : Expr} :
    e.ComposesFunctions ↔ (∀ f g, e = .compose f g → f.isFunction = true ∧ g.isFunction = true) ∧
      ∀ p ∈ e.parts, p.ComposesFunctions := forall_subtree_iff

/-- Compositions are built of functions: the builder refuses anything else. -/
theorem composesFunctions_of_build {inner outer : Part} {e : Expr} (h : Build.compose inner outer = .ok e)
    (hinner : ∀ f, inner = .expr f → f.ComposesFunctions) (houter : ∀ g, outer = .expr g → g.ComposesFunctions) :
    e.ComposesFunctions := by
  unfold Build.compose at h
  split at h
  · rename_i f g
    split at h
    · rename_i hfunctions
      cases h
      rw [Bool.and_eq_true] at hfunctions
      refine composesFunctions_iff.mpr ⟨?_, ?_⟩
      · intro f' g' heq
        cases heq
        exact hfunctions
      · intro p hp
        simp only [parts, children, List.mem_cons, List.not_mem_nil, or_false] at hp
        obtain rfl | rfl := hp
        · exact hinner _ rfl
        · exact houter _ rfl
    · cases h
  · cases h

/-- A pass leaves a tree as it is if and only if there is no redex in it. -/
theorem simplify_eq_self_iff {e : Expr} (hcompose : e.ComposesFunctions) :
    simplify e = e ↔ ∀ s, Subtree s e → s.isRedex = false := by
  induction hw : e.weight using Nat.strongRecOn generalizing e with
  | ind w ih =>
    obtain ⟨hroot, hparts⟩ := composesFunctions_iff.mp hcompose
    rw [simplify_eq_iff hroot, forall_subtree_iff]
    refine and_congr_right fun _ => forall₂_congr fun p hp => ?_
    have hlt : p.weight < w := hw ▸ weight_part_lt hp
    exact ih p.weight hlt (hparts p hp) rfl

/-- **The fixed points of a pass are the trees without a redex**: for a tree whose literals are numbers, a pass gives an
equal tree if and only if no subtree is a redex. -/
theorem simplify_equal_iff_no_redex {e : Expr} (hnumeric : e.Numeric) (hcompose : e.ComposesFunctions) :
    (simplify e).equal e = true ↔ ∀ s, Subtree s e → s.isRedex = false := by
  rw [← simplify_eq_self_iff hcompose]
  constructor
  · intro h
    exact (simplify_eq_or_weight_lt e).resolve_right (weight_eq_of_equal h).not_lt
  · intro h
    rw [h]
    exact equal_self hnumeric

/-- A square root after a function whose parameter is the fixed value of `y`, marked in the list of parameters. -/
def rootOfDifference : Expr :=
  .compose (.custom "f" [.fixed (.var "y")] (.minus (.var "x") (.int 1))) (.apply .sqrt (.var "t"))

theorem simplify_rootOfDifference :
    rootOfDifference.Numeric ∧ rootOfDifference.ComposesFunctions ∧
      (simplify rootOfDifference).equal rootOfDifference = true ∧
      ∀ s, Subtree s rootOfDifference → s.isRedex = false := by
  have hnumeric : rootOfDifference.Numeric := by simp [Numeric, rootOfDifference, Num.isNaN]
  have simple {e : Expr} (he : ∀ f g, e ≠ .compose f g) (hparts : ∀ p ∈ e.parts, p.ComposesFunctions) :
      e.ComposesFunctions := composesFunctions_iff.mpr ⟨fun f g h => absurd h (he f g), hparts⟩
  have hvar (x : String) : (var x).ComposesFunctions := simple (by simp) (by simp [parts, children])
  have hone : (int 1).ComposesFunctions := simple (by simp) (by simp [parts, children])
  have hbody : (minus (.var "x") (int 1)).ComposesFunctions := simple (by simp) (by simp [parts, children, hvar, hone])
  have hinner : (custom "f" [.fixed (.var "y")] (.minus (.var "x") (.int 1))).ComposesFunctions :=
    simple (by simp) (by simpa [parts] using hbody)
  have houter : (apply .sqrt (.var "t")).ComposesFunctions := simple (by simp) (by simp [parts, children, hvar])
  have hcompose : rootOfDifference.ComposesFunctions := by
    refine composesFunctions_iff.mpr ⟨?_, by simp [rootOfDifference, parts, children, hinner, houter]⟩
    intro f g h
    cases h
    exact ⟨rfl, rfl⟩
  have hfixed : (simplify rootOfDifference).equal rootOfDifference = true := by decide
  exact ⟨hnumeric, hcompose, hfixed, (simplify_equal_iff_no_redex hnumeric hcompose).mp hfixed⟩

end ExprCalculus.Expr
