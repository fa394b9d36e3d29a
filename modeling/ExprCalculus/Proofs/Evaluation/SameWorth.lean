import ExprCalculus.Evaluation.Basic

/-!
# Expressions that differ in literals only

Of a literal, evaluation takes only the number to calculate with.  Two expressions that differ in nothing but literals
that come to one such number have one outcome, whatever their names are bound to; `same` says which literals these
are.

* `evaluateWith_of_sameBy`, `evaluateUpTo_of_sameBy` — the outcome.
-/

namespace ExprCalculus

variable {same : Num → Num → Bool}

/-! ## Functions and their arguments -/

theorem functionName_of_sameBy :
    ∀ e e' : Expr, Expr.sameBy same e e' = true → e.functionName = e'.functionName
  | .number _, e', h | .var _, e', h | .fixed _, e', h | .vector _, e', h | .interval .., e', h | .neg _, e', h
  | .log .., e', h | .root .., e', h | .binary .., e', h => by
    cases e' <;> first | rfl | simp [Expr.sameBy] at h
  | .apply .., e', h | .custom .., e', h | .call _, e', h => by
    cases e' <;> simp [Expr.sameBy] at h
    simp [Expr.functionName, h]
  | .compose f g, e', h => by
    cases e' <;> simp only [Expr.sameBy, Bool.and_eq_true, Bool.false_eq_true] at h
    simp only [Expr.functionName, functionName_of_sameBy f _ h.1, functionName_of_sameBy g _ h.2]

theorem args_of_sameBy :
    ∀ e e' : Expr, Expr.sameBy same e e' = true → Expr.allSameBy same e.args e'.args = true
  | .number _, e', h | .var _, e', h | .fixed _, e', h | .vector _, e', h | .interval .., e', h | .neg _, e', h
  | .binary .., e', h | .call _, e', h => by
    cases e' <;> first | rfl | simp [Expr.sameBy] at h
  | .apply .., e', h | .root .., e', h | .log .., e', h | .custom .., e', h => by
    cases e' <;> simp [Expr.sameBy] at h
    simp [Expr.args, Expr.allSameBy, h]
  | .compose f g, e', h => by
    cases e' <;> simp only [Expr.sameBy, Bool.and_eq_true, Bool.false_eq_true] at h
    have hargs := args_of_sameBy f _ h.1
    exact hargs

theorem parameterName?_of_sameBy {e e' : Expr} (h : Expr.sameBy same e e' = true) :
    e.parameterName? = e'.parameterName? := by
  cases e <;> cases e' <;> first | rfl | simp_all [Expr.sameBy, Expr.parameterName?]

theorem length_of_allSameBy {as bs : List Expr} (h : Expr.allSameBy same as bs = true) : as.length = bs.length := by
  induction as generalizing bs with
  | nil =>
    cases bs with
    | nil => rfl
    | cons b bs => cases h
  | cons a as ih =>
    cases bs with
    | nil => cases h
    | cons b bs =>
      rw [Expr.allSameBy, Bool.and_eq_true] at h
      rw [List.length_cons, List.length_cons, ih h.2]

theorem bindArguments_of_allSameBy {α : Type} {as bs : List Expr} (h : Expr.allSameBy same as bs = true) (env : Env α)
    (xs : List α) : env.bindArguments as xs = env.bindArguments bs xs := by
  induction as generalizing bs env xs with
  | nil =>
    cases bs with
    | nil => rfl
    | cons b bs => cases h
  | cons a as ih =>
    cases bs with
    | nil => cases h
    | cons b bs =>
      rw [Expr.allSameBy, Bool.and_eq_true] at h
      cases xs with
      | nil => simp only [Env.bindArguments]
      | cons x xs => simp only [Env.bindArguments, parameterName?_of_sameBy h.1, ih h.2]

/-! ## Outcomes -/

variable {α : Type} [Scalar α] {bound : Tag → Env α → Expr → Outcome α}

mutual

/-- Expressions that differ only in literals of one worth have one outcome. -/
theorem evaluateWith_of_sameBy
    (hsame : ∀ m n, same m n = true → (Scalar.ofNum? m : Option α) = Scalar.ofNum? n) :
    ∀ (e e' : Expr) (tag : Tag) (env : Env α), Expr.sameBy same e e' = true →
      evaluateWith bound e tag env = evaluateWith bound e' tag env
  | .number m, e', tag, env, h => by
    cases e' <;> simp only [Expr.sameBy, Bool.false_eq_true] at h
    simp only [evaluateWith, literalUnder, Scalar.ofNum, hsame _ _ h]
  | .var x, e', tag, env, h => by
    cases e' <;> simp only [Expr.sameBy, beq_iff_eq, Bool.false_eq_true] at h
    rw [h]
  | .call f, e', tag, env, h => by
    cases e' <;> simp only [Expr.sameBy, beq_iff_eq, Bool.false_eq_true] at h
    rw [h]
  | .fixed a, e', tag, env, h => by
    cases e' <;> simp only [Expr.sameBy, Bool.false_eq_true] at h
    simp only [evaluateWith, evaluateWith_of_sameBy hsame a _ tag env h]
  | .vector es, e', tag, env, h => by
    cases e' <;> simp only [Expr.sameBy, Bool.false_eq_true] at h
    simp only [evaluateWith, evaluateAll_of_allSameBy hsame es _ _ env h, length_of_allSameBy h]
  | .interval a b, e', tag, env, h => by
    cases e' <;> simp only [Expr.sameBy, Bool.and_eq_true, Bool.false_eq_true] at h
    simp only [evaluateWith, evaluateWith_of_sameBy hsame a _ _ env h.1, evaluateWith_of_sameBy hsame b _ _ env h.2]
  | .binary op a b, e', tag, env, h => by
    cases e' <;> simp only [Expr.sameBy, Bool.and_eq_true, decide_eq_true_eq, Bool.false_eq_true] at h
    obtain ⟨⟨rfl, ha⟩, hb⟩ := h
    simp only [evaluateWith, evaluateWith_of_sameBy hsame a _ _ env ha, evaluateWith_of_sameBy hsame b _ _ env hb]
  | .neg a, e', tag, env, h => by
    cases e' <;> simp only [Expr.sameBy, Bool.false_eq_true] at h
    simp only [evaluateWith, evaluateWith_of_sameBy hsame a _ _ env h]
  | .apply fn a, e', tag, env, h => by
    cases e' <;> simp only [Expr.sameBy, Bool.and_eq_true, decide_eq_true_eq, Bool.false_eq_true] at h
    obtain ⟨rfl, ha⟩ := h
    simp only [evaluateWith, evaluateWith_of_sameBy hsame a _ _ env ha]
  | .log a b, e', tag, env, h => by
    cases e' <;> simp only [Expr.sameBy, Bool.and_eq_true, Bool.false_eq_true] at h
    simp only [evaluateWith, evaluateWith_of_sameBy hsame a _ _ env h.1, evaluateWith_of_sameBy hsame b _ _ env h.2]
  | .root n a, e', tag, env, h => by
    cases e' <;> simp only [Expr.sameBy, Bool.and_eq_true, beq_iff_eq, Bool.false_eq_true] at h
    obtain ⟨rfl, ha⟩ := h
    simp only [evaluateWith, evaluateWith_of_sameBy hsame a _ _ env ha]
  | .custom _ _ a, e', tag, env, h => by
    cases e' <;> simp only [Expr.sameBy, Bool.and_eq_true, Bool.false_eq_true] at h
    simp only [evaluateWith, evaluateWith_of_sameBy hsame a _ _ env h.2]
  | .compose f g, e', tag, env, h => by
    cases e' <;> simp only [Expr.sameBy, Bool.and_eq_true, Bool.false_eq_true] at h
    obtain ⟨hf, hg⟩ := h
    have hargs := args_of_sameBy g _ hg
    simp only [evaluateWith, evaluateWith_of_sameBy hsame f _ _ env hf, evaluateWith_of_sameBy hsame g _ tag _ hg,
      functionName_of_sameBy f _ hf, functionName_of_sameBy g _ hg, length_of_allSameBy hargs,
      bindArguments_of_allSameBy hargs]

theorem evaluateAll_of_allSameBy
    (hsame : ∀ m n, same m n = true → (Scalar.ofNum? m : Option α) = Scalar.ofNum? n) :
    ∀ (es es' : List Expr) (tag : Tag) (env : Env α), Expr.allSameBy same es es' = true →
      evaluateAll bound es tag env = evaluateAll bound es' tag env
  | [], es', tag, env, h => by
    cases es' with
    | nil => rfl
    | cons e es' => cases h
  | e :: es, es', tag, env, h => by
    cases es' <;> simp only [Expr.allSameBy, Bool.and_eq_true, Bool.false_eq_true] at h
    simp only [evaluateAll, evaluateWith_of_sameBy hsame e _ _ env h.1, evaluateAll_of_allSameBy hsame es _ _ env h.2]

end

/-- The same for bindings that lead through at most `depth` names. -/
theorem evaluateUpTo_of_sameBy
    (hsame : ∀ m n, same m n = true → (Scalar.ofNum? m : Option α) = Scalar.ofNum? n) {e e' : Expr}
    (h : Expr.sameBy same e e' = true) (depth : Nat) (tag : Tag) (env : Env α) :
    evaluateUpTo depth tag env e = evaluateUpTo depth tag env e' := by
  cases depth with
  | zero => rfl
  | succ depth => exact evaluateWith_of_sameBy hsame e e' tag env h

end ExprCalculus
