import ExprCalculus.Derivative

/-!
# Derivatives of trees with calls

The body of a call is not known before the tree is evaluated, so no call has a derivative, and neither has a tree that
holds one.  A rule of differentiation takes the derivatives of all parts, with three exceptions: a step function is
constant between its jumps, the parameters of a function are names, and of a power a part that is sure not to vary is
left out.  The last is the one that might hide a call; it does not, since a part with a call in it is never sure not to
vary, although the call counts no free names.

* `Expr.Within` — the parts of a tree of which the derivative has to take account.
* `Expr.derive_of_call_within` — a call among them leaves the tree without a derivative.
* `Expr.exists_derive` — nothing but a call or an interval among them does.
-/

namespace ExprCalculus

namespace Expr

/-- Whether a part stands in a tree outside of the arguments of step functions and of the parameters of functions. -/
inductive Within (p : Expr) : Expr → Prop where
  | refl : Within p p
  | fixed {e : Expr} (h : Within p e) : Within p (.fixed e)
  | element {e : Expr} {es : List Expr} (he : e ∈ es) (h : Within p e) : Within p (.vector es)
  | lower {a : Expr} (b : Expr) (h : Within p a) : Within p (.interval a b)
  | upper (a : Expr) {b : Expr} (h : Within p b) : Within p (.interval a b)
  | first (op : BinOp) {a : Expr} (b : Expr) (h : Within p a) : Within p (.binary op a b)
  | second (op : BinOp) (a : Expr) {b : Expr} (h : Within p b) : Within p (.binary op a b)
  | neg {a : Expr} (h : Within p a) : Within p (.neg a)
  | argument {fn : Fn} (hfn : Fn.isStep fn = false) {a : Expr} (h : Within p a) : Within p (.apply fn a)
  | base {b : Expr} (a : Expr) (h : Within p b) : Within p (.log b a)
  | antilogarithm (b : Expr) {a : Expr} (h : Within p a) : Within p (.log b a)
  | radicand (n : Nat) {a : Expr} (h : Within p a) : Within p (.root n a)
  | body (name : String) (params : List Expr) {e : Expr} (h : Within p e) : Within p (.custom name params e)
  | inner {f : Expr} (g : Expr) (h : Within p f) : Within p (.compose f g)
  | outer (f : Expr) {g : Expr} (h : Within p g) : Within p (.compose f g)

/-- Whether an error is about a call or an interval that stands in a tree in this way. -/
inductive ArisesIn (e : Expr) : DeriveError → Prop where
  | call {name : String} (h : Within (.call name) e) : ArisesIn e (.unresolvedCall name)
  | interval {a b : Expr} (h : Within (.interval a b) e) : ArisesIn e (.interval (.interval a b))

variable {v name : String} {a b e : Expr} {op : BinOp}

/-! ## Calls -/

theorem anyHasCall_of_mem {es : List Expr} (he : e ∈ es) (h : e.hasCall = true) : anyHasCall es = true := by
  induction es with
  | nil => cases he
  | cons e' es ih =>
    rw [anyHasCall, Bool.or_eq_true]
    cases he with
    | head => exact .inl h
    | tail _ he => exact .inr (ih he)

theorem Within.hasCall (h : Within (.call name) e) : e.hasCall = true := by
  induction h with
  | refl => rfl
  | fixed _ ih | neg _ ih | argument _ _ ih | radicand _ _ ih => exact ih
  | element he _ ih => exact anyHasCall_of_mem he ih
  | lower _ _ ih | first _ _ _ ih | base _ _ ih | inner _ _ ih => simp only [Expr.hasCall, ih, Bool.true_or]
  | upper _ _ ih | second _ _ _ ih | antilogarithm _ _ ih | outer _ _ ih | body _ _ _ ih =>
    simp only [Expr.hasCall, ih, Bool.or_true]

/-- A tree with a call is never sure not to vary. -/
theorem isFreeOf_of_hasCall (v : String) (h : a.hasCall = true) : isFreeOf v a = false := by
  simp only [isFreeOf, h, Bool.not_true, Bool.and_false]

/-! ## Failures -/

/-- Whether there is no result. -/
def Fails {β : Type} (r : Except DeriveError β) : Prop := ∃ x, r = .error x

section Failures

variable {r s : Except DeriveError Expr}

theorem Fails.both_left (h : Fails r) (s : Except DeriveError Expr) (f : Expr → Expr → Expr) : Fails (both r s f) := by
  obtain ⟨x, rfl⟩ := h
  exact ⟨x, rfl⟩

theorem Fails.both_right (r : Except DeriveError Expr) (h : Fails s) (f : Expr → Expr → Expr) : Fails (both r s f) := by
  obtain ⟨y, rfl⟩ := h
  cases r with
  | error x => exact ⟨x, rfl⟩
  | ok d => exact ⟨y, rfl⟩

theorem Fails.map (h : Fails r) (f : Expr → Expr) : Fails (r.map f) := by
  obtain ⟨x, rfl⟩ := h
  exact ⟨x, rfl⟩

theorem Fails.deriveAll {es : List Expr} (he : e ∈ es) (h : Fails (derive v e)) : Fails (deriveAll v es) := by
  induction es with
  | nil => cases he
  | cons e' es ih =>
    unfold Expr.deriveAll
    split
    · exact ⟨_, rfl⟩
    rename_i d hd
    cases he with
    | head =>
      obtain ⟨x, hx⟩ := h
      rw [hd] at hx
      cases hx
    | tail _ he =>
      obtain ⟨x, hx⟩ := ih he
      rw [hx]
      exact ⟨x, rfl⟩

/-- The base of a power is left out only where it is sure not to vary. -/
theorem Fails.first (op : BinOp) (b : Expr) (h : Fails (derive v a)) (hcall : a.hasCall = true) :
    Fails (derive v (.binary op a b)) := by
  cases op with
  | plus | minus | divide | modulo => exact h.both_left _ _
  | times => exact .both_right _ h _
  | power =>
    rw [derive, isFreeOf_of_hasCall v hcall, if_neg Bool.false_ne_true]
    split
    · exact h.map _
    · exact h.both_left _ _

/-- And so is the exponent. -/
theorem Fails.second (op : BinOp) (a : Expr) (h : Fails (derive v b)) (hcall : b.hasCall = true) :
    Fails (derive v (.binary op a b)) := by
  cases op with
  | plus | minus | divide | modulo => exact .both_right _ h _
  | times => exact h.both_left _ _
  | power =>
    rw [derive, isFreeOf_of_hasCall v hcall, if_neg Bool.false_ne_true]
    split
    · exact h.map _
    · exact .both_right _ h _

end Failures

/-- Each part that a derivative takes account of passes its failure on. -/
theorem fails_of_call_within (h : Within (.call name) e) (v : String) : Fails (derive v e) := by
  induction h with
  | refl => exact ⟨_, rfl⟩
  | fixed _ ih => exact ih
  | element he _ ih =>
    obtain ⟨x, hx⟩ := ih.deriveAll he
    rw [derive, hx]
    exact ⟨x, rfl⟩
  | lower | upper => exact ⟨_, rfl⟩
  | first op b h ih => exact ih.first op b h.hasCall
  | second op a h ih => exact ih.second op a h.hasCall
  | neg _ ih | radicand _ _ ih | body _ _ _ ih => exact ih.map _
  | argument hfn _ ih =>
    rw [derive, hfn]
    exact ih.map _
  | base _ _ ih | inner _ _ ih => exact .both_right _ ih _
  | antilogarithm _ _ ih | outer _ _ ih => exact ih.both_left _ _

/-! ## Blame -/

theorem both_eq_error {r s : Except DeriveError Expr} {f : Expr → Expr → Expr} {x : DeriveError}
    (h : both r s f = .error x) : r = .error x ∨ s = .error x := by
  unfold both at h
  split at h
  · cases h
    exact .inl rfl
  split at h
  · cases h
    exact .inr rfl
  · cases h

theorem map_eq_error {r : Except DeriveError Expr} {f : Expr → Expr} {x : DeriveError} (h : r.map f = .error x) :
    r = .error x := by
  cases r with
  | error y =>
    cases h
    rfl
  | ok d => cases h

theorem derive_binary_eq_error {x : DeriveError} (h : derive v (.binary op a b) = .error x) :
    derive v a = .error x ∨ derive v b = .error x := by
  cases op with
  | plus | minus | divide | modulo => exact both_eq_error h
  | times => exact (both_eq_error h).symm
  | power =>
    rw [derive] at h
    split at h
    · exact .inl (map_eq_error h)
    split at h
    · exact .inr (map_eq_error h)
    · exact both_eq_error h

theorem ArisesIn.imp {x : DeriveError} (hx : ArisesIn a x) (h : ∀ {p : Expr}, Within p a → Within p e) :
    ArisesIn e x := by
  cases hx with
  | call hcall => exact .call (h hcall)
  | interval hinterval => exact .interval (h hinterval)

mutual

/-- Nothing has no derivative but a call and an interval, and what the derivative of such a part enters. -/
theorem arisesIn_of_derive (v : String) : ∀ (e : Expr) {x : DeriveError}, derive v e = .error x → ArisesIn e x
  | .number _, _, h | .var _, _, h => by cases h
  | .fixed e, _, h => (arisesIn_of_derive v e h).imp .fixed
  | .vector es, _, h => by
    rw [derive] at h
    split at h
    · rename_i hes
      cases h
      obtain ⟨e, he, hx⟩ := arisesIn_of_deriveAll v es hes
      exact hx.imp (.element he)
    · cases h
  | .interval a b, _, h => by
    cases h
    exact .interval .refl
  | .binary op a b, _, h => by
    rcases derive_binary_eq_error h with ha | hb
    · exact (arisesIn_of_derive v a ha).imp (.first op b)
    · exact (arisesIn_of_derive v b hb).imp (.second op a)
  | .neg a, _, h => (arisesIn_of_derive v a (map_eq_error h)).imp .neg
  | .apply fn a, _, h => by
    rw [derive] at h
    split at h
    · cases h
    · rename_i hfn
      exact (arisesIn_of_derive v a (map_eq_error h)).imp (.argument (Bool.eq_false_iff.mpr hfn))
  | .log base a, _, h => by
    rcases both_eq_error h with ha | hbase
    · exact (arisesIn_of_derive v a ha).imp (.antilogarithm base)
    · exact (arisesIn_of_derive v base hbase).imp (.base a)
  | .root n a, _, h => (arisesIn_of_derive v a (map_eq_error h)).imp (.radicand n)
  | .custom name params e, _, h => (arisesIn_of_derive v e (map_eq_error h)).imp (.body name params)
  | .compose f g, _, h => by
    rcases both_eq_error h with hg | hf
    · exact (arisesIn_of_derive v g hg).imp (.outer f)
    · exact (arisesIn_of_derive v f hf).imp (.inner g)
  | .call _, _, h => by
    cases h
    exact .call .refl

theorem arisesIn_of_deriveAll (v : String) :
    ∀ (es : List Expr) {x : DeriveError}, deriveAll v es = .error x → ∃ e ∈ es, ArisesIn e x
  | [], _, h => by cases h
  | e :: es, _, h => by
    unfold deriveAll at h
    split at h
    · rename_i he
      cases h
      exact ⟨e, List.mem_cons_self, arisesIn_of_derive v e he⟩
    split at h
    · rename_i hes
      cases h
      obtain ⟨e', he', hx⟩ := arisesIn_of_deriveAll v es hes
      exact ⟨e', List.mem_cons_of_mem _ he', hx⟩
    · cases h

end

/-- **A tree with a call has no derivative**, by any variable, unless the call stands in the argument of a step function
or among the parameters of a function.  The error is about a call or an interval that does not stand there either. -/
theorem derive_of_call_within (h : Within (.call name) e) (v : String) : ∃ x, derive v e = .error x ∧ ArisesIn e x := by
  obtain ⟨x, hx⟩ := fails_of_call_within h v
  exact ⟨x, hx, arisesIn_of_derive v e hx⟩

/-- The tree `2 ^ (f() + floor(x))`, of which the exponent holds a call and the variable as well. -/
def raisedToCall : Expr := .power (.int 2) (.plus (.call "f") (.apply .floor (.var "x")))

theorem derive_of_call_within_exponent :
    Within (.call "f") raisedToCall ∧ ∃ x, derive "y" raisedToCall = .error x ∧ ArisesIn raisedToCall x := by
  have h : Within (.call "f") raisedToCall := .second .power _ (.first .plus _ .refl)
  exact ⟨h, derive_of_call_within h "y"⟩

/-- **Every other tree has one**, if it has no interval in such a place. -/
theorem exists_derive (v : String) (hcall : ∀ name, ¬Within (.call name) e)
    (hinterval : ∀ a b, ¬Within (.interval a b) e) : ∃ d, derive v e = .ok d := by
  cases h : derive v e with
  | ok d => exact ⟨d, rfl⟩
  | error x =>
    cases arisesIn_of_derive v e h with
    | call hwithin => exact absurd hwithin (hcall _)
    | interval hwithin => exact absurd hwithin (hinterval _ _)

end Expr

end ExprCalculus
