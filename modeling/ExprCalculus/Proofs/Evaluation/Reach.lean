import Mathlib.Data.Set.Card
import ExprCalculus.Proofs.Evaluation.Expectation
import ExprCalculus.Proofs.Scope.Session

/-!
# Names that lead to names

A variable or a function that is bound to an expression leads to the names that this looks up.  Where no name leads to
itself, a name gets a rank: the number of bound names that it leads to.  What a name is bound to only looks up names of
smaller rank, so that an evaluation leads through no more bindings than there are.

* `Expr.LooksUp`, `namesIn_iff_looksUp` - the names that an expression looks up, one at a time.
* `Env.Ranked`, `evaluateUpTo_meets_of_ranked` - an expectation is met by induction over the ranks.
* `ncard_reach_lt` - what a name leads to has a smaller rank.
* `evaluateUpTo_meets_of_nonCyclic` - an expectation is met although it does not allow for exceeding the depth, if the
  depth is more than the number of bindings.
-/

namespace ExprCalculus

/-! ## Names looked up -/

namespace Expr

mutual

/-- Whether an expression looks up a name: a variable that no composition around it binds, or a function that it
calls. -/
def LooksUp (k : NameSort) (y : String) : Expr → Prop
  | .number _ => False
  | .var x => k = .ofVariable ∧ y = x
  | .call f => k = .ofFunction ∧ y = f
  | .fixed e | .neg e | .apply _ e | .root _ e | .custom _ _ e => LooksUp k y e
  | .vector es => AnyLooksUp k y es
  | .interval a b | .binary _ a b | .log a b => LooksUp k y a ∨ LooksUp k y b
  | .compose f g => LooksUp k y f ∨ LooksUp k y g ∧ (k = .ofVariable → y ∉ g.parameterNames)

/-- Whether one of several expressions does. -/
def AnyLooksUp (k : NameSort) (y : String) : List Expr → Prop
  | [] => False
  | e :: es => LooksUp k y e ∨ AnyLooksUp k y es

end

variable {V W F G : Set String}

/-- Two parts of an expression. -/
theorem forall_or_imp_iff {p q p' q' : String → Prop} :
    ((∀ y, p y ∨ q y → y ∈ V) ∧ ∀ f, p' f ∨ q' f → f ∈ F) ↔
      ((∀ y, p y → y ∈ V) ∧ ∀ f, p' f → f ∈ F) ∧ (∀ y, q y → y ∈ V) ∧ ∀ f, q' f → f ∈ F := by
  simp only [or_imp, forall_and]
  exact and_and_and_comm

mutual

/-- The names that an expression looks up, as sets that hold them. -/
theorem namesIn_iff_looksUp : ∀ {e : Expr} {V : Set String},
    e.NamesIn V F ↔ (∀ y, e.LooksUp .ofVariable y → y ∈ V) ∧ ∀ f, e.LooksUp .ofFunction f → f ∈ F
  | .number _, _ => by simp [NamesIn, LooksUp]
  | .var x, _ => by simp [NamesIn, LooksUp]
  | .call f, _ => by simp [NamesIn, LooksUp]
  | .fixed e, _ | .neg e, _ | .apply _ e, _ | .root _ e, _ | .custom _ _ e, _ => namesIn_iff_looksUp (e := e)
  | .vector es, _ => allNamesIn_iff_looksUp (l := es)
  | .interval a b, _ | .binary _ a b, _ | .log a b, _ => by
    simp only [NamesIn, LooksUp]
    rw [namesIn_iff_looksUp, namesIn_iff_looksUp, forall_or_imp_iff]
  | .compose f g, V => by
    have hparams : (∀ y, g.LooksUp .ofVariable y → y ∈ V ∪ {x | x ∈ g.parameterNames}) ↔
        ∀ y, g.LooksUp .ofVariable y ∧ (NameSort.ofVariable = .ofVariable → y ∉ g.parameterNames) → y ∈ V := by
      refine forall_congr' fun y => ?_
      simp only [Set.mem_union, Set.mem_ofPred_eq, forall_const, and_imp, or_iff_not_imp_right]
    simp only [NamesIn, LooksUp]
    rw [namesIn_iff_looksUp, namesIn_iff_looksUp, hparams, forall_or_imp_iff]
    simp

theorem allNamesIn_iff_looksUp : ∀ {l : List Expr} {V : Set String},
    AllNamesIn l V F ↔ (∀ y, AnyLooksUp .ofVariable y l → y ∈ V) ∧ ∀ f, AnyLooksUp .ofFunction f l → f ∈ F
  | [], _ => by simp [AllNamesIn, AnyLooksUp]
  | e :: es, _ => by
    simp only [AllNamesIn, AnyLooksUp]
    rw [namesIn_iff_looksUp, allNamesIn_iff_looksUp, forall_or_imp_iff]

end

theorem NamesIn.imp {e : Expr} (h : e.NamesIn V F) (hV : V ⊆ W) (hF : F ⊆ G) : e.NamesIn W G := by
  obtain ⟨hvars, hfuncs⟩ := namesIn_iff_looksUp.mp h
  exact namesIn_iff_looksUp.mpr ⟨fun y hy => hV (hvars y hy), fun f hf => hF (hfuncs f hf)⟩

end Expr

/-! ## Names that lead on -/

variable {α : Type}

namespace Env

/-- The expression that a name is bound to. -/
def bound? (env : Env α) : NameSort → String → Option Expr
  | .ofVariable, x =>
    match env.vars x with
    | some (.tree e) => some e
    | _ => none
  | .ofFunction, f => env.funcs f

theorem bound?_ofVariable {env : Env α} {x : String} {e : Expr} :
    env.bound? .ofVariable x = some e ↔ env.vars x = some (.tree e) := by
  simp only [bound?]
  split
  · rename_i e' he
    simp [he]
  · rename_i hno
    refine iff_of_false nofun fun he => hno e he

/-- The expression that a name is bound to looks up another. -/
def LeadsOn (env : Env α) (n m : NameSort × String) : Prop := ∃ e, env.bound? n.1 n.2 = some e ∧ e.LooksUp m.1 m.2

/-- No name leads to itself. -/
def NonCyclic (env : Env α) : Prop := ∀ n, ¬ Relation.TransGen env.LeadsOn n n

/-! ## Ranks -/

/-- The names of a rank below `n`, and those that lead no further. -/
def below (env : Env α) (rank : NameSort × String → Nat) (n : Nat) (k : NameSort) : Set String :=
  {y | ∀ e, env.bound? k y = some e → rank (k, y) < n}

/-- An environment in which the expression that a name is bound to looks up names of smaller rank only, apart from those
that lead no further. -/
def Ranked (env : Env α) (rank : NameSort × String → Nat) : Prop :=
  ∀ k x e, env.bound? k x = some e →
    e.NamesIn (env.below rank (rank (k, x)) .ofVariable) (env.below rank (rank (k, x)) .ofFunction)

variable {env : Env α} {rank : NameSort × String → Nat}

theorem below_mono {m n : Nat} (h : m ≤ n) (k : NameSort) : env.below rank m k ⊆ env.below rank n k :=
  fun _ hy e he => Nat.lt_of_lt_of_le (hy e he) h

/-- Parameters are bound to numbers, and nothing else is bound. -/
theorem bound?_of_bindArguments {g : Expr} {xs : List α} (hlength : xs.length = g.args.length) {k : NameSort}
    {y : String} {e : Expr} (he : (env.bindArguments g.args xs).bound? k y = some e) :
    env.bound? k y = some e ∧ (k = .ofVariable → y ∉ g.parameterNames) := by
  cases k with
  | ofFunction =>
    refine ⟨?_, nofun⟩
    simpa only [bound?, bindArguments_funcs] using he
  | ofVariable =>
    rw [bound?_ofVariable] at he ⊢
    have hparam : y ∉ g.parameterNames := by
      intro hparam
      obtain ⟨z, hz⟩ := exists_bindArguments hlength hparam
      rw [hz env] at he
      cases he
    rw [bindArguments_of_not_mem hparam] at he
    exact ⟨he, fun _ => hparam⟩

/-- Numbers lead no further. -/
theorem below_bindArguments {g : Expr} {xs : List α} (hlength : xs.length = g.args.length) (n : Nat) (k : NameSort) :
    env.below rank n k ⊆ (env.bindArguments g.args xs).below rank n k :=
  fun _ hy e he => hy e (bound?_of_bindArguments hlength he).1

theorem Ranked.bindArguments (h : env.Ranked rank) {g : Expr} {xs : List α} (hlength : xs.length = g.args.length) :
    (env.bindArguments g.args xs).Ranked rank := by
  intro k x e he
  exact (h k x e (bound?_of_bindArguments hlength he).1).imp (below_bindArguments hlength _ _)
    (below_bindArguments hlength _ _)

end Env

/-- **An expectation is met at a depth above the ranks of the names looked up**, by induction over the ranks. -/
theorem evaluateUpTo_meets_of_ranked [Scalar α] {E : Expectation α} (hE : E.Kept)
    (hunbound : ∀ x tag, E.error tag (.unboundVariable x)) {rank : NameSort × String → Nat} :
    ∀ (n : Nat) {V F : Set String} {env : Env α}, env.Ranked rank → V ⊆ env.below rank n .ofVariable →
      F ⊆ env.below rank n .ofFunction → ∀ {e : Expr}, e.NamesIn V F →
        ∀ tag, E.Meets tag (evaluateUpTo (n + 1) tag env e) := by
  intro n
  induction n using Nat.strongRecOn with
  | ind n ih =>
    intro V F env hranked hV hF e he tag
    let reached (V : Set String) (env : Env α) : Prop :=
      env.Ranked rank ∧ V ⊆ env.below rank n .ofVariable ∧ F ⊆ env.below rank n .ofFunction
    -- what a name of smaller rank is bound to
    have onward {V : Set String} {env : Env α} (henv : reached V env) {k : NameSort} {x : String} {b : Expr}
        (hb : env.bound? k x = some b) (hrank : rank (k, x) < n) (tag : Tag) :
        E.Meets tag (evaluateUpTo n tag env b) := by
      obtain ⟨m, rfl⟩ : ∃ m, n = m + 1 := ⟨n - 1, by omega⟩
      have hle : rank (k, x) ≤ m := Nat.le_of_lt_succ hrank
      exact ih m (Nat.lt_succ_self m) henv.1 (Env.below_mono hle _) (Env.below_mono hle _) (henv.1 k x b hb) tag
    have hR : E.Supported F (evaluateUpTo n) reached := by
      constructor
      · exact fun _ _ _ => hunbound _
      · intro V env x b henv hx hb tag
        have hb := Env.bound?_ofVariable.mpr hb
        exact onward henv hb (henv.2.1 hx b hb) tag
      · intro V env f b henv hf hb tag
        exact onward henv (k := .ofFunction) hb (henv.2.2 hf b hb) tag
      · intro V env g xs henv hlength
        refine ⟨henv.1.bindArguments hlength, Set.union_subset ?_ fun y hy b hb => ?_, ?_⟩
        · exact henv.2.1.trans (Env.below_bindArguments hlength n _)
        · exact absurd hy ((Env.bound?_of_bindArguments hlength hb).2 rfl)
        · exact henv.2.2.trans (Env.below_bindArguments hlength n _)
    exact evaluateWith_meets hE hR e tag ⟨hranked, hV, hF⟩ he

/-! ## Ranks without a cycle -/

namespace Env

variable {env : Env α} {names : List (NameSort × String)}

/-- The names bound to expressions that a name leads to. -/
def reach (env : Env α) (n : NameSort × String) : Set (NameSort × String) :=
  {m | Relation.TransGen env.LeadsOn n m ∧ ∃ e, env.bound? m.1 m.2 = some e}

/-- What a name leads to has a smaller rank. -/
theorem ncard_reach_lt (hcycles : env.NonCyclic) (hnames : ∀ n e, env.bound? n.1 n.2 = some e → n ∈ names)
    {n m : NameSort × String} (hnm : env.LeadsOn n m) {e : Expr} (hm : env.bound? m.1 m.2 = some e) :
    (env.reach m).ncard < (env.reach n).ncard := by
  have hfinite : (env.reach n).Finite := (List.finite_toSet names).subset fun z ⟨_, b, hb⟩ => hnames z b hb
  refine Set.ncard_lt_ncard ?_ hfinite
  refine ⟨fun z hz => ⟨.head hnm hz.1, hz.2⟩, fun hsub => ?_⟩
  exact hcycles m (hsub ⟨.single hnm, e, hm⟩).1

/-- A rank is below the number of names, of which the name itself is one. -/
theorem ncard_reach_lt_length (hcycles : env.NonCyclic) (hnames : ∀ n e, env.bound? n.1 n.2 = some e → n ∈ names)
    {n : NameSort × String} {e : Expr} (hn : env.bound? n.1 n.2 = some e) : (env.reach n).ncard < names.length := by
  classical
  have hlt : (env.reach n).ncard < {m | m ∈ names}.ncard := by
    refine Set.ncard_lt_ncard ⟨fun m ⟨_, b, hb⟩ => hnames m b hb, fun hsub => ?_⟩ (List.finite_toSet names)
    exact hcycles n (hsub (hnames n e hn)).1
  calc (env.reach n).ncard < {m | m ∈ names}.ncard := hlt
    _ = names.toFinset.card := by rw [← List.coe_toFinset, Set.ncard_coe_finset]
    _ ≤ names.length := names.toFinset_card_le

theorem ranked_of_nonCyclic (hcycles : env.NonCyclic) (hnames : ∀ n e, env.bound? n.1 n.2 = some e → n ∈ names) :
    env.Ranked fun n => (env.reach n).ncard := by
  intro k x e he
  have hlt (k' : NameSort) (y : String) (hy : e.LooksUp k' y) :
      y ∈ env.below (fun n => (env.reach n).ncard) (env.reach (k, x)).ncard k' := by
    intro b hb
    have hleads : env.LeadsOn (k, x) (k', y) := ⟨e, he, hy⟩
    exact ncard_reach_lt hcycles hnames hleads hb
  exact Expr.namesIn_iff_looksUp.mpr ⟨hlt .ofVariable, hlt .ofFunction⟩

end Env

/-- **An expectation is met without exceeding the depth** where no name leads to itself, if the depth is more than the
number of names that are bound. -/
theorem evaluateUpTo_meets_of_nonCyclic [Scalar α] {E : Expectation α} (hE : E.Kept)
    (hunbound : ∀ x tag, E.error tag (.unboundVariable x)) {env : Env α} {names : List (NameSort × String)}
    (hcycles : env.NonCyclic) (hnames : ∀ n e, env.bound? n.1 n.2 = some e → n ∈ names) {depth : Nat}
    (hdepth : names.length < depth) (e : Expr) (tag : Tag) : E.Meets tag (evaluateUpTo depth tag env e) := by
  obtain ⟨n, rfl⟩ : ∃ n, depth = n + 1 := ⟨depth - 1, by omega⟩
  have hranked := Env.ranked_of_nonCyclic hcycles hnames
  have hall (k : NameSort) : Set.univ ⊆ env.below (fun n => (env.reach n).ncard) n k := fun y _ b hb =>
    Nat.lt_of_lt_of_le (Env.ncard_reach_lt_length hcycles hnames hb) (Nat.le_of_lt_succ hdepth)
  exact evaluateUpTo_meets_of_ranked hE hunbound n hranked (hall _) (hall _) e.namesIn_univ tag

end ExprCalculus
