import ExprCalculus.Proofs.Simplify.Hereditary
import ExprCalculus.Proofs.Simplify.Weight

/-!
# Repeated simplification settles

Every pass that changes a tree makes it lighter, so the passes come to a tree that the next one leaves as it
is, and no tree comes back once it was changed.

* `unchanged_simplify_iff` — the test for the end of the passes says that a pass gives the very same tree.
* `exists_settled` — as many passes as the tree weighs are enough.
* `iterate_simplify_settles` — what repeated passes give, with and without a limit.
-/

namespace ExprCalculus.Expr

/-! ## Literals -/

mutual

/-- The literals in a tree, those in parameters included. -/
@[simp]
def literals : Expr → List Num
  | .number n => [n]
  | .var _ | .call _ => []
  | .fixed e | .neg e | .apply _ e | .root _ e => literals e
  | .vector es => literalsOf es
  | .interval a b | .binary _ a b | .log a b | .compose a b => literals a ++ literals b
  | .custom _ params body => literalsOf params ++ literals body

/-- The literals in several trees. -/
@[simp]
def literalsOf : List Expr → List Num
  | [] => []
  | e :: es => literals e ++ literalsOf es

end

/-- Whether every literal in a tree is a number. -/
def Numeric (e : Expr) : Prop := ∀ n ∈ e.literals, n.isNaN = false

theorem mem_literalsOf {n : Num} {es : List Expr} : n ∈ literalsOf es ↔ ∃ e ∈ es, n ∈ e.literals := by
  induction es with
  | nil => simp
  | cons e es ih => simp [ih]

theorem mem_literals_of_args {n : Num} (f : Expr) (h : n ∈ literalsOf f.args) : n ∈ f.literals := by
  induction f using args.induct with
  | case1 fn a => simpa [args] using h
  | case2 base a => simpa [args] using h
  | case3 k a => simpa [args] using h
  | case4 name params body =>
    rw [args] at h
    simp [h]
  | case5 f g ih => simp [ih h]
  | case6 e => simp_all [args]

theorem numeric_custom_args {f e : Expr} (name : String) (hf : f.Numeric) (he : e.Numeric) :
    (Expr.custom name f.args e).Numeric := by
  refine List.forall_mem_append.mpr ⟨fun n hn => ?_, he⟩
  exact hf n (mem_literals_of_args f hn)

theorem numeric_hereditary : Hereditary Numeric where
  int k := by simp [Numeric, Num.isNaN]
  euler := by
    have h : Num.euler.isNaN = false := by decide
    simp [Numeric, h]
  negate hn _ := by simp [Numeric, Num.isNaN_negate hn]
  fixed h := h
  vector h e he n hn := h n (mem_literalsOf.mpr ⟨e, he, hn⟩)
  vector_map f _ h n hn := by
    obtain ⟨e, he, hn⟩ := mem_literalsOf.mp hn
    obtain ⟨d, hd, rfl⟩ := List.mem_map.mp he
    exact h d hd n hn
  interval := List.forall_mem_append
  binary := List.forall_mem_append
  neg := .rfl
  apply := .rfl
  log := List.forall_mem_append
  root h := ⟨h, fun _ hb => hb⟩
  custom h := by
    obtain ⟨hparams, hbody⟩ := List.forall_mem_append.mp h
    exact ⟨hbody, fun b hb => List.forall_mem_append.mpr ⟨hparams, hb⟩⟩
  compose h := by
    obtain ⟨hf, hg⟩ := List.forall_mem_append.mp h
    exact ⟨hf, hg, fun f' g' hf' hg' => List.forall_mem_append.mpr ⟨hf', hg'⟩⟩
  wrap h e he := by
    obtain ⟨hf, hg⟩ := List.forall_mem_append.mp h
    exact ⟨numeric_custom_args _ hf he, numeric_custom_args _ hg he⟩

/-! ## Comparing a tree with itself -/

mutual

theorem sameBy_self {same : Num → Num → Bool} :
    ∀ e : Expr, (∀ n ∈ e.literals, same n n = true) → sameBy same e e = true
  | .number n, h => by simpa [sameBy] using h
  | .var _, _ | .call _, _ => by simp [sameBy]
  | .fixed e, h | .neg e, h | .apply _ e, h | .root _ e, h => by simp [sameBy, sameBy_self e h]
  | .vector es, h => by simp [sameBy, allSameBy_self es h]
  | .interval a b, h | .binary _ a b, h | .log a b, h | .compose a b, h => by
    obtain ⟨ha, hb⟩ := List.forall_mem_append.mp h
    simp [sameBy, sameBy_self a ha, sameBy_self b hb]
  | .custom _ params body, h => by
    obtain ⟨hparams, hbody⟩ := List.forall_mem_append.mp h
    simp [sameBy, allSameBy_self params hparams, sameBy_self body hbody]

theorem allSameBy_self {same : Num → Num → Bool} :
    ∀ es : List Expr, (∀ n ∈ literalsOf es, same n n = true) → allSameBy same es es = true
  | [], _ => rfl
  | e :: es, h => by
    obtain ⟨he, hes⟩ := List.forall_mem_append.mp h
    simp [allSameBy, sameBy_self e he, allSameBy_self es hes]

end

theorem equal_self {e : Expr} (h : e.Numeric) : e.equal e = true :=
  sameBy_self e fun n hn => Num.sameValue_self (h n hn)

/-- A pass that changes nothing gives the very same tree. -/
theorem unchanged_simplify_iff {e : Expr} : (simplify e).unchanged e = true ↔ simplify e = e := by
  constructor
  · intro h
    exact (simplify_eq_or_weight_lt e).resolve_right (weight_eq_of_unchanged h).not_lt
  · intro h
    rw [h]
    exact sameBy_self e fun n _ => Num.alike_self n

/-! ## Passes without a limit -/

theorem numeric_iterate {e : Expr} (h : e.Numeric) (n : Nat) : (simplify^[n] e).Numeric := by
  induction n with
  | zero => exact h
  | succ n ih =>
    rw [Function.iterate_succ_apply']
    exact numeric_hereditary.simplify _ ih

theorem weight_iterate_antitone (e : Expr) : Antitone fun n => (simplify^[n] e).weight := by
  refine antitone_nat_of_succ_le fun n => ?_
  rw [Function.iterate_succ_apply']
  exact (simplify_eq_or_weight_lt _).weight_le

/-- As many passes as the tree weighs are enough. -/
theorem exists_settled (e : Expr) : ∃ n ≤ e.weight, simplify (simplify^[n] e) = simplify^[n] e := by
  induction hw : e.weight using Nat.strongRecOn generalizing e with
  | ind w ih =>
    obtain h | h := simplify_eq_or_weight_lt e
    · exact ⟨0, Nat.zero_le _, h⟩
    · obtain ⟨n, hn, hfix⟩ := ih _ (hw ▸ h) (simplify e) rfl
      exact ⟨n + 1, by omega, hfix⟩

/-- A tree that comes back was not changed in between. -/
theorem simplify_iterate_of_equal {e : Expr} {i k : Nat} (hk : 0 < k)
    (h : (simplify^[i + k] e).equal (simplify^[i] e) = true) :
    simplify (simplify^[i] e) = simplify^[i] e := by
  refine (simplify_eq_or_weight_lt _).resolve_right fun hlt => ?_
  have hback := weight_eq_of_equal h
  have hmono := weight_iterate_antitone e (show i + 1 ≤ i + k by omega)
  simp only [Function.iterate_succ_apply'] at hmono
  omega

/-! ## Passes with a limit -/

theorem settleFrom_tree {e : Expr} {n : Nat} (hn : simplify (simplify^[n] e) = simplify^[n] e)
    (done limit : Nat) : (settleFrom done limit e).tree = simplify^[min limit n] e := by
  induction limit generalizing e n done with
  | zero => simp [settleFrom]
  | succ limit ih =>
    rw [settleFrom]
    split
    · rename_i h
      rw [unchanged_simplify_iff] at h
      rw [Function.iterate_fixed h]
      exact h
    · rename_i h
      cases n with
      | zero => exact absurd (unchanged_simplify_iff.mpr hn) h
      | succ n =>
        have hnext : simplify (simplify^[n] (simplify e)) = simplify^[n] (simplify e) := hn
        rw [ih hnext, Nat.succ_min_succ, Function.iterate_succ_apply]

theorem settleFrom_stable {e : Expr} {done limit : Nat} (h : (settleFrom done limit e).stable = true) :
    simplify (settleFrom done limit e).tree = (settleFrom done limit e).tree := by
  induction limit generalizing e done with
  | zero => cases h
  | succ limit ih =>
    rw [settleFrom] at h ⊢
    split at h
    · rename_i hu
      rw [if_pos hu]
      exact congrArg simplify (unchanged_simplify_iff.mp hu)
    · rename_i hu
      rw [if_neg hu]
      exact ih h

/-- Passes that end before the limit end at a tree that does not change. -/
theorem settleFrom_stable_of_lt {e : Expr} {done limit : Nat}
    (h : (settleFrom done limit e).passes < done + limit) : (settleFrom done limit e).stable = true := by
  induction limit generalizing e done with
  | zero => simp [settleFrom] at h
  | succ limit ih =>
    rw [settleFrom] at h ⊢
    split
    · rfl
    · rename_i hu
      rw [if_neg hu] at h
      exact ih (by omega)

/-- **Repeated simplification settles.**  For a tree whose literals are numbers there is a number of passes
after which a pass gives an equal tree.  No tree comes back once a pass has changed it.  With a limit the passes
give what as many of them give without one, and where they end before the limit, or report that the last pass
changed nothing, a further pass gives an equal tree. -/
theorem iterate_simplify_settles {e : Expr} (h : e.Numeric) :
    ∃ n, (simplify (simplify^[n] e)).equal (simplify^[n] e) = true ∧
      (∀ i k, 0 < k → (simplify^[i + k] e).equal (simplify^[i] e) = true →
        (simplify^[i + 1] e).equal (simplify^[i] e) = true) ∧
      (∀ limit, (settle limit e).tree = simplify^[min limit n] e) ∧
      ∀ limit, (settle limit e).passes < limit ∨ (settle limit e).stable = true →
        (simplify (settle limit e).tree).equal (settle limit e).tree = true := by
  obtain ⟨n, -, hn⟩ := exists_settled e
  refine ⟨n, ?_, ?_, fun limit => settleFrom_tree hn 0 limit, ?_⟩
  · rw [hn]
    exact equal_self (numeric_iterate h n)
  · intro i k hk hback
    rw [Function.iterate_succ_apply', simplify_iterate_of_equal hk hback]
    exact equal_self (numeric_iterate h i)
  · intro limit hend
    have hstable : (settle limit e).stable = true :=
      hend.elim (fun hlt => settleFrom_stable_of_lt (by rwa [Nat.zero_add])) id
    have htree : (settle limit e).tree = simplify^[min limit n] e := settleFrom_tree hn 0 limit
    rw [settle, settleFrom_stable hstable, ← settle, htree]
    exact equal_self (numeric_iterate h _)

/-- A sine at zero handed to a function whose body collects three signs: the first pass wraps the sine up and
the second cancels two of the signs. -/
def collapsing : Expr :=
  .compose (.apply .sin (int 0))
    (.custom "g" [.var "x"] (minus (int 0) (minus (int 0) (times (.neg (.var "x")) (int 3)))))

theorem iterate_simplify_settles_collapsing :
    collapsing.Numeric ∧ ∃ n, (simplify (simplify^[n] collapsing)).equal (simplify^[n] collapsing) = true ∧
      (settle 32 collapsing).tree = simplify^[min 32 n] collapsing := by
  have h : collapsing.Numeric := by simp [Numeric, collapsing, Num.isNaN]
  obtain ⟨n, hn, -, hlimit, -⟩ := iterate_simplify_settles h
  exact ⟨h, n, hn, hlimit 32⟩

end ExprCalculus.Expr
