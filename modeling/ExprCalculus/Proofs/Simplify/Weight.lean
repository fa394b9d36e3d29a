import ExprCalculus.Proofs.Number.Sign
import ExprCalculus.Simplify

/-!
# The weight of a tree

The size of a tree does not drop with every pass: pulling a sign out of a product and subtracting instead of
adding a negative literal keep it, and the part of a composition that is no function any more is wrapped up.
The weight does drop.  It counts what stands under a product or a quotient twice, a negative literal twice, and
a part of a composition that is not wrapped up yet with a surplus; parameters, which no pass changes, weigh
nothing.

* `simplifyBinary_weight`, `simplifyNeg_weight`, `simplifyFunction_weight` — a rule leaves a node as it is or
  makes it lighter.
* `simplify_eq_or_weight_lt` — a pass leaves a tree as it is or makes it lighter.
-/

namespace ExprCalculus

/-- The weight of a literal. -/
def Num.weight (n : Num) : Nat := if n.isNegative then 2 else 1

/-- The weight of an operation on parts of these weights. -/
def BinOp.weight : BinOp → Nat → Nat → Nat
  | .times, u, w | .divide, u, w => 2 * (u + w)
  | _, u, w => u + w + 1

theorem BinOp.weight_lt_left (op : BinOp) {u v : Nat} (w : Nat) (h : u < v) : op.weight u w < op.weight v w := by
  cases op <;> simp only [BinOp.weight] <;> omega

theorem BinOp.weight_lt_right (op : BinOp) (u : Nat) {v w : Nat} (h : v < w) : op.weight u v < op.weight u w := by
  cases op <;> simp only [BinOp.weight] <;> omega

namespace Expr

/-- What a part of a composition weighs besides itself, unless it is wrapped up as a custom function. -/
def surplus : Expr → Nat
  | .custom .. => 0
  | _ => 2

mutual

/-- The weight of a tree. -/
@[simp]
def weight : Expr → Nat
  | .number n => n.weight
  | .var _ | .call _ => 1
  | .fixed e | .neg e | .apply _ e | .root _ e => weight e + 1
  | .vector es => weightOf es + 1
  | .interval a b | .log a b => weight a + weight b + 1
  | .binary op a b => op.weight (weight a) (weight b)
  | .custom _ _ body => weight body + 1
  | .compose f g => (weight f + f.surplus) + (weight g + g.surplus) + 1

/-- The weight of several trees. -/
@[simp]
def weightOf : List Expr → Nat
  | [] => 0
  | e :: es => weight e + weightOf es

end

/-! ## Comparing weights -/

theorem weight_number_pos (n : Num) : 0 < n.weight := by
  unfold Num.weight
  split <;> omega

theorem weight_pos (e : Expr) : 0 < e.weight := by
  cases e with
  | number n => exact weight_number_pos n
  | binary op a b =>
    have ha := weight_pos a
    cases op <;> simp only [weight, BinOp.weight] <;> omega
  | _ =>
    simp only [weight]
    omega

theorem weight_argumentValue_le (e : Expr) : e.argumentValue.weight ≤ e.weight := by
  unfold argumentValue
  split
  · simp only [weight]
    omega
  · exact Nat.le_refl _

/-- What is left of a node: the node itself or something lighter. -/
def Lighter (e node : Expr) : Prop := e = node ∨ e.weight < node.weight

theorem Lighter.weight_le {e node : Expr} (h : Lighter e node) : e.weight ≤ node.weight := by
  obtain rfl | h := h
  · exact Nat.le_refl _
  · exact Nat.le_of_lt h

/-! ## Rules -/

theorem weight_negate {n : Num} (h : n.isNegative = true) : n.negate.weight < n.weight := by
  simp [Num.weight, h, Num.isNegative_negate h]

theorem simplifySum_weight (a b : Expr) : Lighter (simplifySum a b) (plus a b) := by
  have ha := a.weight_pos
  have hb := b.weight_pos
  unfold simplifySum
  split
  · exact .inr (by simp only [weight, BinOp.weight]; omega)
  split
  · exact .inr (by simp only [weight, BinOp.weight]; omega)
  split
  · exact .inr (by simp only [weight, BinOp.weight]; omega)
  · split
    · rename_i hn
      have := weight_negate hn
      exact .inr (by simp only [weight, BinOp.weight]; omega)
    · exact .inl rfl
  · exact .inl rfl

theorem simplifyDifference_weight (a b : Expr) : Lighter (simplifyDifference a b) (minus a b) := by
  have ha := a.weight_pos
  have hb := b.weight_pos
  unfold simplifyDifference
  split
  · exact .inr (by simp only [weight, BinOp.weight]; omega)
  split
  · exact .inr (by simp only [weight, BinOp.weight]; omega)
  split
  · exact .inr (by simp only [weight, BinOp.weight]; omega)
  · split
    · rename_i hn
      have := weight_negate hn
      exact .inr (by simp only [weight, BinOp.weight]; omega)
    · exact .inl rfl
  · exact .inl rfl

theorem weight_int {k : Int} (h : 0 ≤ k) : (int k).weight = 1 := by
  simp [weight, Num.weight, Num.isNegative, h]

/-- Signs pulled out of a product or a quotient. -/
theorem simplifyProduct_weight (a b : Expr) : Lighter (simplifyProduct a b) (times a b) := by
  have ha := a.weight_pos
  have hb := b.weight_pos
  unfold simplifyProduct
  split
  · exact .inr (by rw [weight_int (by decide)]; simp only [weight, BinOp.weight]; omega)
  split
  · exact .inr (by simp only [weight, BinOp.weight]; omega)
  split
  · exact .inr (by simp only [weight, BinOp.weight]; omega)
  split
  · exact .inr (by simp only [weight, BinOp.weight]; omega)
  · exact .inr (by simp only [weight, BinOp.weight]; omega)
  · exact .inr (by simp only [weight, BinOp.weight]; omega)
  · exact .inl rfl

theorem simplifyQuotient_weight (a b : Expr) : Lighter (simplifyQuotient a b) (divide a b) := by
  have ha := a.weight_pos
  have hb := b.weight_pos
  unfold simplifyQuotient
  split
  · exact .inr (by rw [weight_int (by decide)]; simp only [weight, BinOp.weight]; omega)
  split
  · exact .inr (by simp only [weight, BinOp.weight]; omega)
  split
  · exact .inr (by simp only [weight, BinOp.weight]; omega)
  · exact .inr (by simp only [weight, BinOp.weight]; omega)
  · exact .inr (by simp only [weight, BinOp.weight]; omega)
  · exact .inl rfl

theorem simplifyPower_weight (a b : Expr) : Lighter (simplifyPower a b) (power a b) := by
  have ha := a.weight_pos
  have hb := b.weight_pos
  unfold simplifyPower
  split
  · exact .inr (by rw [weight_int (by decide)]; simp only [weight, BinOp.weight]; omega)
  split
  · exact .inr (by simp only [weight, BinOp.weight]; omega)
  split
  · exact .inr (by rw [weight_int (by decide)]; simp only [weight, BinOp.weight]; omega)
  · exact .inl rfl

/-- The rule of an operation leaves the node as it is or makes it lighter. -/
theorem simplifyBinary_weight (op : BinOp) (a b : Expr) :
    Lighter (simplifyBinary op a b) (.binary op a b) := by
  cases op with
  | plus => exact simplifySum_weight a b
  | minus => exact simplifyDifference_weight a b
  | times => exact simplifyProduct_weight a b
  | divide => exact simplifyQuotient_weight a b
  | power => exact simplifyPower_weight a b
  | modulo => exact .inl rfl

theorem simplifyNeg_weight (a : Expr) : Lighter (simplifyNeg a) (.neg a) := by
  unfold simplifyNeg
  split
  · exact .inr (by simp only [weight]; omega)
  split
  · exact .inr (by simp only [weight]; omega)
  · exact .inl rfl

theorem simplifyExp_weight (a : Expr) : Lighter (simplifyExp a) (.apply .exp a) := by
  have ha := a.weight_pos
  have heuler : (Expr.number .euler).weight = 1 := by decide
  unfold simplifyExp
  split
  · exact .inr (by rw [weight_int (by decide)]; simp only [weight]; omega)
  split
  · exact .inr (by rw [heuler]; simp only [weight]; omega)
  split
  · rename_i x y _ _
    have hy := y.weight_argumentValue_le
    exact .inr (by simp only [weight, BinOp.weight]; omega)
  · exact .inl rfl

theorem simplifySqrt_weight (a : Expr) : Lighter (simplifySqrt a) (.apply .sqrt a) := by
  unfold simplifySqrt
  split
  · split
    · exact .inr (by simp only [weight, BinOp.weight]; omega)
    · exact .inl rfl
  split
  · exact .inr (by simp only [weight]; omega)
  · exact .inl rfl

theorem simplifyRounding_weight (fn : Fn) (a : Expr) : Lighter (simplifyRounding fn a) (.apply fn a) := by
  unfold simplifyRounding
  split
  · exact .inr (by simp only [weight]; omega)
  · exact .inr (by simp only [weight]; omega)
  · exact .inl rfl

/-- A function that has a known value at one argument. -/
theorem lighter_known (fn : Fn) (a : Expr) {k : Int} {known : Expr} (h : known.weight ≤ a.weight) :
    Lighter (if a.isValue k then known else .apply fn a) (.apply fn a) := by
  split
  · exact .inr (by simp only [weight]; omega)
  · exact .inl rfl

/-- The rule of a default function leaves the node as it is or makes it lighter. -/
theorem simplifyFunction_weight (fn : Fn) (a : Expr) : Lighter (simplifyFunction fn a) (.apply fn a) := by
  have hint : ∀ k : Int, 0 ≤ k → (int k).weight ≤ a.weight := fun k hk => by
    rw [weight_int hk]
    exact a.weight_pos
  cases fn with
  | exp => exact simplifyExp_weight a
  | ln => exact lighter_known .ln a (hint 0 (by decide))
  | sqrt => exact simplifySqrt_weight a
  | sin => exact lighter_known .sin a (Nat.le_refl _)
  | cos => exact lighter_known .cos a (hint 1 (by decide))
  | tan => exact lighter_known .tan a (Nat.le_refl _)
  | ceil => exact simplifyRounding_weight .ceil a
  | floor => exact simplifyRounding_weight .floor a
  | arcsin | arccos | arctan | abs | sgn => exact .inl rfl

/-! ## Nodes whose parts are simplified -/

/-- A node of simplified parts, to which a rule is applied. -/
theorem Lighter.trans {e mid node : Expr} (h : Lighter e mid) (h' : Lighter mid node) : Lighter e node := by
  obtain rfl | h := h
  · exact h'
  · exact .inr (Nat.lt_of_lt_of_le h h'.weight_le)

/-- A node grows lighter with its part. -/
theorem Lighter.map {e' e : Expr} (h : Lighter e' e) (node : Expr → Expr)
    (hnode : ∀ x y, weight x < weight y → weight (node x) < weight (node y)) : Lighter (node e') (node e) := by
  obtain rfl | h := h
  · exact .inl rfl
  · exact .inr (hnode _ _ h)

theorem Lighter.binary (op : BinOp) {a a' b b' : Expr} (ha : Lighter a' a) (hb : Lighter b' b) :
    Lighter (.binary op a' b') (.binary op a b) :=
  (ha.map (.binary op · b') fun _ _ h => op.weight_lt_left _ h).trans
    (hb.map (.binary op a ·) fun _ _ h => op.weight_lt_right _ h)

theorem simplify_isFunction_of_custom {e : Expr} (h : e.surplus = 0) :
    (simplify e).isFunction = true ∧ (simplify e).surplus = 0 := by
  cases e with
  | custom name params body => exact ⟨rfl, rfl⟩
  | _ => cases h

theorem surplus_le (e : Expr) : e.surplus ≤ 2 := by
  unfold surplus
  split <;> decide

/-- A simplified part of a composition, wrapped up if it is no function any more. -/
theorem asFunction_weight {f : Expr} (h : Lighter (simplify f) f) :
    asFunction (simplify f) f = f ∨
      (asFunction (simplify f) f).weight + (asFunction (simplify f) f).surplus < f.weight + f.surplus := by
  have hle := h.weight_le
  have h2 := surplus_le (simplify f)
  have hf : f.surplus = 0 ∨ f.surplus = 2 := by
    unfold surplus
    split <;> simp
  unfold asFunction
  split
  · obtain heq | hlt := h
    · exact .inl heq
    · right
      obtain h0 | h0 := hf
      · have := (simplify_isFunction_of_custom h0).2
        omega
      · omega
  · rename_i hno
    right
    obtain h0 | h0 := hf
    · exact absurd (simplify_isFunction_of_custom h0).1 hno
    · simp only [weight, surplus] at h0 ⊢
      omega

mutual

/-- **A pass leaves a tree as it is or makes it lighter.** -/
theorem simplify_eq_or_weight_lt : ∀ e : Expr, Lighter (simplify e) e
  | .number _ | .var _ | .call _ => .inl rfl
  | .fixed e => by
    have h := (simplify_eq_or_weight_lt e).weight_le
    exact .inr (by simp only [simplify, weight]; omega)
  | .vector es => by
    obtain h | h := simplifyAll_eq_or_weight_lt es
    · exact .inl (by rw [simplify, h])
    · exact .inr (by simp only [simplify, weight]; omega)
  | .interval a b =>
    ((simplify_eq_or_weight_lt a).map (.interval · (simplify b)) fun _ _ h => by
      simp only [weight]; omega).trans
    ((simplify_eq_or_weight_lt b).map (.interval a ·) fun _ _ h => by simp only [weight]; omega)
  | .binary op a b =>
    (simplifyBinary_weight op _ _).trans
      (.binary op (simplify_eq_or_weight_lt a) (simplify_eq_or_weight_lt b))
  | .neg a =>
    (simplifyNeg_weight _).trans
      ((simplify_eq_or_weight_lt a).map .neg fun _ _ h => by simp only [weight]; omega)
  | .apply fn a =>
    (simplifyFunction_weight fn _).trans
      ((simplify_eq_or_weight_lt a).map (.apply fn) fun _ _ h => by simp only [weight]; omega)
  | .log base a =>
    ((simplify_eq_or_weight_lt base).map (.log · (simplify a)) fun _ _ h => by
      simp only [weight]; omega).trans
    ((simplify_eq_or_weight_lt a).map (.log base ·) fun _ _ h => by simp only [weight]; omega)
  | .root n a => (simplify_eq_or_weight_lt a).map (.root n) fun _ _ h => by simp only [weight]; omega
  | .custom name params body =>
    (simplify_eq_or_weight_lt body).map (.custom name params) fun _ _ h => by simp only [weight]; omega
  | .compose f g => by
    obtain hf | hf := asFunction_weight (simplify_eq_or_weight_lt f)
    · obtain hg | hg := asFunction_weight (simplify_eq_or_weight_lt g)
      · exact .inl (by rw [simplify, hf, hg])
      · exact .inr (by simp only [simplify, weight, hf]; omega)
    · obtain hg | hg := asFunction_weight (simplify_eq_or_weight_lt g)
      · exact .inr (by simp only [simplify, weight, hg]; omega)
      · exact .inr (by simp only [simplify, weight]; omega)

theorem simplifyAll_eq_or_weight_lt :
    ∀ es : List Expr, simplifyAll es = es ∨ weightOf (simplifyAll es) < weightOf es
  | [] => .inl rfl
  | e :: es => by
    have hle := (simplify_eq_or_weight_lt e).weight_le
    obtain h | h := simplifyAll_eq_or_weight_lt es
    · obtain he | he := simplify_eq_or_weight_lt e
      · exact .inl (by rw [simplifyAll, he, h])
      · exact .inr (by simp only [simplifyAll, weightOf, h]; omega)
    · exact .inr (by simp only [simplifyAll, weightOf]; omega)

end

/-! ## Trees that compare equal -/

section

variable {same : Num → Num → Bool}

theorem surplus_eq_of_sameBy {a b : Expr} (h : sameBy same a b = true) : a.surplus = b.surplus := by
  cases a <;> cases b <;> first | rfl | simp [sameBy] at h

mutual

/-- Trees that compare equal have one weight, provided that literals that do have one sign. -/
theorem weight_eq_of_sameBy (hs : ∀ m n, same m n = true → m.isNegative = n.isNegative) :
    ∀ a b : Expr, sameBy same a b = true → a.weight = b.weight
  | .number m, b, h => by
    cases b <;> simp only [sameBy, Bool.false_eq_true] at h
    simp only [weight, Num.weight, hs _ _ h]
  | .var _, b, h | .call _, b, h => by
    cases b <;> simp only [sameBy, Bool.false_eq_true] at h
    simp only [weight]
  | .fixed a, b, h | .neg a, b, h => by
    cases b <;> simp only [sameBy, Bool.false_eq_true] at h
    simp only [weight, weight_eq_of_sameBy hs a _ h]
  | .apply _ a, b, h | .root _ a, b, h => by
    cases b <;> simp only [sameBy, Bool.and_eq_true, Bool.false_eq_true] at h
    simp only [weight, weight_eq_of_sameBy hs a _ h.2]
  | .vector as, b, h => by
    cases b <;> simp only [sameBy, Bool.false_eq_true] at h
    simp only [weight, weightOf_eq_of_allSameBy hs as _ h]
  | .interval a a', b, h | .log a a', b, h => by
    cases b <;> simp only [sameBy, Bool.and_eq_true, Bool.false_eq_true] at h
    simp only [weight, weight_eq_of_sameBy hs a _ h.1, weight_eq_of_sameBy hs a' _ h.2]
  | .binary op a a', b, h => by
    cases b <;> simp only [sameBy, Bool.and_eq_true, decide_eq_true_eq, Bool.false_eq_true] at h
    obtain ⟨⟨rfl, h⟩, h'⟩ := h
    simp only [weight, weight_eq_of_sameBy hs a _ h, weight_eq_of_sameBy hs a' _ h']
  | .custom _ _ a, b, h => by
    cases b <;> simp only [sameBy, Bool.and_eq_true, Bool.false_eq_true] at h
    simp only [weight, weight_eq_of_sameBy hs a _ h.2]
  | .compose f g, b, h => by
    cases b <;> simp only [sameBy, Bool.and_eq_true, Bool.false_eq_true] at h
    simp only [weight, weight_eq_of_sameBy hs f _ h.1, weight_eq_of_sameBy hs g _ h.2,
      surplus_eq_of_sameBy h.1, surplus_eq_of_sameBy h.2]

theorem weightOf_eq_of_allSameBy (hs : ∀ m n, same m n = true → m.isNegative = n.isNegative) :
    ∀ as bs : List Expr, allSameBy same as bs = true → weightOf as = weightOf bs
  | [], bs, h => by
    cases bs <;> simp only [allSameBy, Bool.false_eq_true] at h
    rfl
  | a :: as, bs, h => by
    cases bs <;> simp only [allSameBy, Bool.and_eq_true, Bool.false_eq_true] at h
    simp only [weightOf, weight_eq_of_sameBy hs a _ h.1, weightOf_eq_of_allSameBy hs as _ h.2]

end

end

theorem weight_eq_of_equal {a b : Expr} (h : a.equal b = true) : a.weight = b.weight :=
  weight_eq_of_sameBy (fun _ _ => Num.isNegative_eq_of_sameValue) a b h

theorem weight_eq_of_unchanged {a b : Expr} (h : a.unchanged b = true) : a.weight = b.weight :=
  weight_eq_of_sameBy (fun _ _ => Num.isNegative_eq_of_alike) a b h

end Expr

end ExprCalculus
