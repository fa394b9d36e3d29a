import ExprCalculus.Simplify

/-!
# Properties that a pass keeps

A pass puts parts of a tree together in other ways and makes literals of its own: zero, one, Euler's number and
the opposites of negative literals.  A property that a tree shares with its parts and that these literals have
(`Hereditary`) is kept by every pass, whatever the rules (`Hereditary.simplify`).
-/

namespace ExprCalculus.Expr

/-- A property that a tree shares with its parts.  Where a node carries more than its parts, what the property
says of the rest of the node is taken over from the node before. -/
structure Hereditary (P : Expr → Prop) : Prop where
  int : ∀ k : Int, P (int k)
  euler : P (.number .euler)
  negate : ∀ {n : Num}, n.isNegative = true → P (.number n) → P (.number n.negate)
  fixed : ∀ {e : Expr}, P (.fixed e) → P e
  vector : ∀ {es : List Expr}, P (.vector es) → ∀ e ∈ es, P e
  vector_map : ∀ {es : List Expr} (f : Expr → Expr), P (.vector es) → (∀ e ∈ es, P (f e)) →
    P (.vector (es.map f))
  interval : ∀ {a b : Expr}, P (.interval a b) ↔ P a ∧ P b
  binary : ∀ {op : BinOp} {a b : Expr}, P (.binary op a b) ↔ P a ∧ P b
  neg : ∀ {a : Expr}, P (.neg a) ↔ P a
  apply : ∀ {fn : Fn} {a : Expr}, P (.apply fn a) ↔ P a
  log : ∀ {a b : Expr}, P (.log a b) ↔ P a ∧ P b
  root : ∀ {n : Nat} {a : Expr}, P (.root n a) → P a ∧ ∀ b, P b → P (.root n b)
  custom : ∀ {name : String} {params : List Expr} {body : Expr}, P (.custom name params body) →
    P body ∧ ∀ b, P b → P (.custom name params b)
  compose : ∀ {f g : Expr}, P (.compose f g) → P f ∧ P g ∧ ∀ f' g', P f' → P g' → P (.compose f' g')
  /-- the parts of a composition may be wrapped up -/
  wrap : ∀ {f g : Expr}, P (.compose f g) →
    ∀ e, P e → P (.custom f.functionName f.args e) ∧ P (.custom g.functionName g.args e)

namespace Hereditary

variable {P : Expr → Prop} {a b : Expr}

/-! ## Rules -/

theorem argumentValue (h : Hereditary P) (ha : P a) : P a.argumentValue := by
  unfold Expr.argumentValue
  split
  · exact h.fixed ha
  · exact ha

theorem simplifySum (h : Hereditary P) (ha : P a) (hb : P b) : P (simplifySum a b) := by
  unfold Expr.simplifySum
  split
  · exact hb
  split
  · exact ha
  split
  · exact h.binary.mpr ⟨ha, h.neg.mp hb⟩
  · split
    · rename_i hn
      exact h.binary.mpr ⟨ha, h.negate hn hb⟩
    · exact h.binary.mpr ⟨ha, hb⟩
  · exact h.binary.mpr ⟨ha, hb⟩

theorem simplifyDifference (h : Hereditary P) (ha : P a) (hb : P b) : P (simplifyDifference a b) := by
  unfold Expr.simplifyDifference
  split
  · exact ha
  split
  · exact h.neg.mpr hb
  split
  · exact h.binary.mpr ⟨ha, h.neg.mp hb⟩
  · split
    · rename_i hn
      exact h.binary.mpr ⟨ha, h.negate hn hb⟩
    · exact h.binary.mpr ⟨ha, hb⟩
  · exact h.binary.mpr ⟨ha, hb⟩

theorem simplifyProduct (h : Hereditary P) (ha : P a) (hb : P b) : P (simplifyProduct a b) := by
  unfold Expr.simplifyProduct
  split
  · exact h.int 0
  split
  · exact hb
  split
  · exact ha
  split
  · exact h.binary.mpr ⟨h.neg.mp ha, h.neg.mp hb⟩
  · exact h.neg.mpr (h.binary.mpr ⟨h.neg.mp ha, hb⟩)
  · exact h.neg.mpr (h.binary.mpr ⟨ha, h.neg.mp hb⟩)
  · exact h.binary.mpr ⟨ha, hb⟩

theorem simplifyQuotient (h : Hereditary P) (ha : P a) (hb : P b) : P (simplifyQuotient a b) := by
  unfold Expr.simplifyQuotient
  split
  · exact h.int 0
  split
  · exact ha
  split
  · exact h.binary.mpr ⟨h.neg.mp ha, h.neg.mp hb⟩
  · exact h.neg.mpr (h.binary.mpr ⟨h.neg.mp ha, hb⟩)
  · exact h.neg.mpr (h.binary.mpr ⟨ha, h.neg.mp hb⟩)
  · exact h.binary.mpr ⟨ha, hb⟩

theorem simplifyPower (h : Hereditary P) (ha : P a) (hb : P b) : P (simplifyPower a b) := by
  unfold Expr.simplifyPower
  split
  · exact h.int 1
  split
  · exact ha
  split
  · exact h.int 1
  · exact h.binary.mpr ⟨ha, hb⟩

theorem simplifyBinary (h : Hereditary P) (op : BinOp) (ha : P a) (hb : P b) : P (simplifyBinary op a b) := by
  cases op with
  | plus => exact h.simplifySum ha hb
  | minus => exact h.simplifyDifference ha hb
  | times => exact h.simplifyProduct ha hb
  | divide => exact h.simplifyQuotient ha hb
  | power => exact h.simplifyPower ha hb
  | modulo => exact h.binary.mpr ⟨ha, hb⟩

theorem simplifyNeg (h : Hereditary P) (ha : P a) : P (simplifyNeg a) := by
  unfold Expr.simplifyNeg
  split
  · exact h.neg.mp ha
  split
  · exact ha
  · exact h.neg.mpr ha

theorem simplifyExp (h : Hereditary P) (ha : P a) : P (simplifyExp a) := by
  unfold Expr.simplifyExp
  split
  · exact h.int 1
  split
  · exact h.euler
  split
  · obtain ⟨hx, hln⟩ := h.binary.mp ha
    exact h.binary.mpr ⟨h.argumentValue (h.apply.mp hln), hx⟩
  · exact h.apply.mpr ha

theorem simplifySqrt (h : Hereditary P) (ha : P a) : P (simplifySqrt a) := by
  unfold Expr.simplifySqrt
  split
  · split
    · exact (h.binary.mp ha).1
    · exact h.apply.mpr ha
  split
  · exact ha
  · exact h.apply.mpr ha

theorem simplifyRounding (h : Hereditary P) (fn : Fn) (ha : P a) : P (simplifyRounding fn a) := by
  unfold Expr.simplifyRounding
  split
  · exact ha
  · exact ha
  · exact h.apply.mpr ha

/-- A function that has a known value at one argument. -/
theorem known (h : Hereditary P) (fn : Fn) {k : Int} {e : Expr} (he : P e) (ha : P a) :
    P (if a.isValue k then e else .apply fn a) := by
  split
  · exact he
  · exact h.apply.mpr ha

theorem simplifyFunction (h : Hereditary P) (fn : Fn) (ha : P a) : P (simplifyFunction fn a) := by
  cases fn with
  | exp => exact h.simplifyExp ha
  | ln => exact h.known .ln (h.int 0) ha
  | sqrt => exact h.simplifySqrt ha
  | sin => exact h.known .sin ha ha
  | cos => exact h.known .cos (h.int 1) ha
  | tan => exact h.known .tan ha ha
  | ceil => exact h.simplifyRounding .ceil ha
  | floor => exact h.simplifyRounding .floor ha
  | arcsin | arccos | arctan | abs | sgn => exact h.apply.mpr ha

/-! ## A pass -/

theorem asFunction {e before : Expr} (he : P e) (hw : P (.custom before.functionName before.args e)) :
    P (asFunction e before) := by
  unfold Expr.asFunction
  split
  · exact he
  · exact hw

theorem simplifyAll_eq_map (es : List Expr) : simplifyAll es = es.map Expr.simplify := by
  induction es with
  | nil => rfl
  | cons e es ih => rw [simplifyAll, ih, List.map_cons]

mutual

/-- **A pass keeps every hereditary property.** -/
theorem simplify (h : Hereditary P) : ∀ e : Expr, P e → P e.simplify
  | .number _, he | .var _, he | .call _, he => he
  | .fixed e, he => h.simplify e (h.fixed he)
  | .vector es, he => by
    rw [Expr.simplify, simplifyAll_eq_map]
    exact h.vector_map Expr.simplify he (h.simplifyEach es (h.vector he))
  | .interval a b, he => by
    obtain ⟨ha, hb⟩ := h.interval.mp he
    exact h.interval.mpr ⟨h.simplify a ha, h.simplify b hb⟩
  | .binary op a b, he => by
    obtain ⟨ha, hb⟩ := h.binary.mp he
    exact h.simplifyBinary op (h.simplify a ha) (h.simplify b hb)
  | .neg a, he => h.simplifyNeg (h.simplify a (h.neg.mp he))
  | .apply fn a, he => h.simplifyFunction fn (h.simplify a (h.apply.mp he))
  | .log base a, he => by
    obtain ⟨hb, ha⟩ := h.log.mp he
    exact h.log.mpr ⟨h.simplify base hb, h.simplify a ha⟩
  | .root _ a, he => by
    obtain ⟨ha, hroot⟩ := h.root he
    exact hroot _ (h.simplify a ha)
  | .custom _ _ body, he => by
    obtain ⟨hb, hcustom⟩ := h.custom he
    exact hcustom _ (h.simplify body hb)
  | .compose f g, he => by
    obtain ⟨hf, hg, hcompose⟩ := h.compose he
    have hf' := h.simplify f hf
    have hg' := h.simplify g hg
    exact hcompose _ _ (asFunction hf' (h.wrap he _ hf').1) (asFunction hg' (h.wrap he _ hg').2)

theorem simplifyEach (h : Hereditary P) : ∀ es : List Expr, (∀ e ∈ es, P e) → ∀ e ∈ es, P e.simplify
  | [], _ => by simp
  | d :: es, hes => by
    have hd := h.simplify d (hes d List.mem_cons_self)
    have htail := h.simplifyEach es fun e he => hes e (List.mem_cons_of_mem _ he)
    exact List.forall_mem_cons.mpr ⟨hd, htail⟩

end

end Hereditary

end ExprCalculus.Expr
