import ExprCalculus.Proofs.Evaluation.Depth
import ExprCalculus.Proofs.Evaluation.FreeNames
import ExprCalculus.Proofs.Evaluation.Kind
import ExprCalculus.Proofs.Evaluation.Reach
import ExprCalculus.Proofs.Simplify.Settling

/-!
# Binding a variable is substitution

A variable that is bound to an expression in a scope of its own stands for the expression: a tree has there the value
that it has outside with the expression in the place of the variable.  That is so if neither the expression nor what
other names are bound to looks up the variable, for otherwise the binding changes what these stand for, and if no name
leads to itself.

* `Expr.substitute` - an expression in the place of a variable.
* `evaluateWith_substitute` - one tree, by its variables.
* `evaluateUpTo_bind` - a binding that is not looked up does not matter.
* `evaluateUpTo_child` - evaluation in a scope within another.
-/

namespace ExprCalculus

/-! ## An expression in the place of a variable -/

namespace Expr

mutual

/-- Puts an expression in the place of a variable; where that is the argument of a default function, the expression is
an argument.  Compositions and calls are left as they are. -/
def substitute (x : String) (e : Expr) : Expr → Expr
  | .number v => .number v
  | .var y => if y = x then e else .var y
  | .fixed a => .fixed (substitute x e a)
  | .vector es => .vector (substituteAll x e es)
  | .interval a b => .interval (substitute x e a) (substitute x e b)
  | .binary op a b => .binary op (substitute x e a) (substitute x e b)
  | .neg a => .neg (substitute x e a)
  | .apply fn a => applyTo fn (substitute x e a)
  | .log b a => .log (substitute x e b).inArgument (substitute x e a).inArgument
  | .root n a => .root n (substitute x e a).inArgument
  | .custom name params body => .custom name params (substitute x e body)
  | .compose f g => .compose f g
  | .call f => .call f

/-- Puts an expression in the place of a variable in several expressions. -/
def substituteAll (x : String) (e : Expr) : List Expr → List Expr
  | [] => []
  | a :: as => substitute x e a :: substituteAll x e as

end

theorem length_substituteAll (x : String) (e : Expr) (es : List Expr) : (substituteAll x e es).length = es.length := by
  induction es with
  | nil => rfl
  | cons a as ih => simp only [substituteAll, List.length_cons, ih]

end Expr

section

variable {α : Type} [Scalar α] {bound bound' : Tag → Env α → Expr → Outcome α}

/-- An argument is evaluated as what it stands for. -/
theorem evaluateWith_inArgument (e : Expr) (tag : Tag) (env : Env α) :
    evaluateWith bound e.inArgument tag env = evaluateWith bound e tag env := by
  unfold Expr.inArgument
  split
  · rfl
  · rfl
  · rw [evaluateWith]
  · rfl

variable {env env' : Env α} {x : String} {e : Expr}

mutual

/-- **A tree has the value of the tree with an expression in the place of a variable**, if all variables do. -/
theorem evaluateWith_substitute
    (hvars : ∀ y tag,
      evaluateWith bound (.var y) tag env = evaluateWith bound' (Expr.substitute x e (.var y)) tag env') :
    ∀ (t : Expr) (tag : Tag), t.isPlain = true →
      evaluateWith bound t tag env = evaluateWith bound' (Expr.substitute x e t) tag env'
  | .number _, _, _ => by simp only [Expr.substitute, evaluateWith]
  | .var y, tag, _ => hvars y tag
  | .fixed a, tag, h | .custom _ _ a, tag, h => by
    simp only [Expr.substitute, evaluateWith, evaluateWith_substitute hvars a tag h]
  | .vector es, tag, h => by
    simp only [Expr.substitute, evaluateWith, evaluateAll_substitute hvars es _ h, Expr.length_substituteAll]
  | .interval a b, tag, h | .binary _ a b, tag, h => by
    obtain ⟨ha, hb⟩ := Bool.and_eq_true_iff.mp h
    simp only [Expr.substitute, evaluateWith, evaluateWith_substitute hvars a _ ha,
      evaluateWith_substitute hvars b _ hb]
  | .log b a, tag, h => by
    obtain ⟨hb, ha⟩ := Bool.and_eq_true_iff.mp h
    simp only [Expr.substitute, evaluateWith, evaluateWith_inArgument, evaluateWith_substitute hvars a _ ha,
      evaluateWith_substitute hvars b _ hb]
  | .neg a, tag, h | .apply _ a, tag, h | .root _ a, tag, h => by
    simp only [Expr.substitute, Expr.applyTo, evaluateWith, evaluateWith_inArgument,
      evaluateWith_substitute hvars a _ h]
  | .compose .., _, h | .call _, _, h => by cases h

theorem evaluateAll_substitute
    (hvars : ∀ y tag,
      evaluateWith bound (.var y) tag env = evaluateWith bound' (Expr.substitute x e (.var y)) tag env') :
    ∀ (es : List Expr) (tag : Tag), Expr.allPlain es = true →
      evaluateAll bound es tag env = evaluateAll bound' (Expr.substituteAll x e es) tag env'
  | [], _, _ => by simp only [Expr.substituteAll, evaluateAll]
  | a :: as, tag, h => by
    obtain ⟨ha, has⟩ := Bool.and_eq_true_iff.mp h
    simp only [Expr.substituteAll, evaluateAll, evaluateWith_substitute hvars a _ ha,
      evaluateAll_substitute hvars as _ has]

end

end

/-! ## A binding that is not looked up -/

/-- **Binding a variable does not matter** to an expression that does not look it up, if nothing that a name is bound to
does. -/
theorem evaluateUpTo_bind {α : Type} [Scalar α] {env : Env α} {x : String} {e : Expr} (he : ¬ e.LooksUp .ofVariable x)
    (hbound : ∀ k y b, env.bound? k y = some b → ¬ b.LooksUp .ofVariable x) (b : Binding α) (depth : Nat) (tag : Tag) :
    evaluateUpTo depth tag (env.bind x b) e = evaluateUpTo depth tag env e := by
  have names {e : Expr} (he : ¬ e.LooksUp .ofVariable x) : e.NamesIn {y | y ≠ x} Set.univ := by
    refine Expr.namesIn_iff_looksUp.mpr ⟨fun y hy hyx => ?_, fun _ _ => trivial⟩
    rw [hyx] at hy
    exact he hy
  have hleads : env.LeadsTo (·.NamesIn {y | y ≠ x} Set.univ) {y | y ≠ x} Set.univ :=
    ⟨fun y _ b hb => names (hbound .ofVariable y b (Env.bound?_ofVariable.mpr hb)),
      fun f _ b hb => names (hbound .ofFunction f b hb)⟩
  have hself (e : Expr) : Expr.sameBy (fun m n => decide (m = n)) e e = true :=
    Expr.sameBy_self e fun n _ => decide_eq_true rfl
  have halike : env.Alike (fun e e' => Expr.sameBy (fun m n => decide (m = n)) e e' = true) {y | y ≠ x} Set.univ
      (env.bind x b) := by
    refine ⟨fun y hy => ?_, fun f _ => ?_⟩
    · have hvars : (env.bind x b).vars y = env.vars y := if_neg hy
      rw [hvars]
      obtain _ | ⟨_ | _⟩ := env.vars y
      · exact .none
      · exact .some (.tree (hself _))
      · exact .some (.number _)
    · have hfuncs : (env.bind x b).funcs f = env.funcs f := rfl
      rw [hfuncs]
      cases env.funcs f with
      | none => exact .none
      | some e => exact .some (hself e)
  refine (evaluateUpTo_alike (fun m n h => ?_) (hleads.paired halike) (names he) depth tag).symm
  rw [of_decide_eq_true h]

/-! ## A scope within another -/

namespace Store

variable {s : Store} {c : Nat}

/-- The names bound in a scope and in those around it. -/
def boundNames (s : Store) (c : Nat) : List (NameSort × String) :=
  (s.chain c).flatMap fun sc => sc.vars.map (fun b => (.ofVariable, b.1)) ++ sc.funcs.map fun b => (.ofFunction, b.1)

theorem exists_scope_of_find {k : NameSort} {x : String} {e : Expr} (h : s.find k c x = some e) :
    ∃ sc ∈ s.chain c, (x, e) ∈ sc.names k := by
  rw [find_eq_findSome?] at h
  obtain ⟨sc, hsc, hget⟩ := List.exists_of_findSome?_eq_some h
  exact ⟨sc, hsc, Names.mem_of_get? hget⟩

theorem mem_boundNames {n : NameSort × String} {e : Expr} (h : s.find n.1 c n.2 = some e) : n ∈ s.boundNames c := by
  obtain ⟨k, x⟩ := n
  obtain ⟨sc, hsc, hmem⟩ := exists_scope_of_find h
  refine List.mem_flatMap.mpr ⟨sc, hsc, List.mem_append.mpr ?_⟩
  cases k with
  | ofVariable => exact .inl (List.mem_map.mpr ⟨_, hmem, rfl⟩)
  | ofFunction => exact .inr (List.mem_map.mpr ⟨_, hmem, rfl⟩)

theorem bound?_env {α : Type} (k : NameSort) (x : String) : (s.env α c).bound? k x = s.find k c x := by
  cases k with
  | ofVariable =>
    simp only [Env.bound?, env, find]
    cases s.lookup c x <;> rfl
  | ofFunction => rfl

/-- Scopes opened later are not around those opened before. -/
theorem chainUpTo_append (hs : s.Earlier) (later : List Scope) (count : Nat) (hc : c < s.scopes.length) :
    chainUpTo ⟨s.scopes ++ later⟩ count c = s.chainUpTo count c := by
  induction count generalizing c with
  | zero => rfl
  | succ count ih =>
    simp only [chainUpTo, List.getElem?_append_left hc]
    split
    · rfl
    · rename_i sc hsc
      split
      · rfl
      · rename_i p hp
        have hlt : p < c := hs c sc p hsc hp
        rw [ih (hlt.trans hc)]

/-- A scope that binds one variable adds this binding to those of the scope around it. -/
theorem env_child {α : Type} (hs : s.Earlier) (hc : c < s.scopes.length) (x : String) (e : Expr) :
    ((s.child c).1.bindVariable (s.child c).2 x e).env α (s.child c).2 = (s.env α c).bind x (.tree e) := by
  have hscopes : ((s.child c).1.bindVariable (s.child c).2 x e) = ⟨s.scopes ++ [⟨some c, [(x, e)], []⟩]⟩ := by
    simp [child, bindVariable, List.modify_eq_take_cons_drop, Scope.empty, Names.put]
  have hchain : ((s.child c).1.bindVariable (s.child c).2 x e).chain (s.child c).2 =
      ⟨some c, [(x, e)], []⟩ :: s.chain c := by
    rw [hscopes, chain, child, chainUpTo]
    simp only [List.getElem?_concat_length]
    rw [chainUpTo_append hs _ _ hc, chainUpTo_of_lt hs hc (Nat.lt_succ_self c), chain]
  unfold env Env.bind lookup lookupFunction
  simp only [hchain, List.findSome?_cons, Names.get?, Env.mk.injEq, and_true]
  funext y
  by_cases hy : y = x
  · simp [hy]
  · simp [hy, Ne.symm hy]

end Store

/-- **Binding a variable is substitution.**  In a scope of its own that binds a variable to an expression, a tree has
the value, or the error, that it has outside with the expression in the place of the variable.  No name leads to itself,
and the variable is looked up neither by the expression nor by anything that a name is bound to; the depth is not
exceeded if it is more than the number of names bound. -/
theorem evaluateUpTo_child {s : Store} (hs : s.Earlier) {c : Nat} (hc : c < s.scopes.length)
    (hcycles : (s.env Float c).NonCyclic) {x : String} {e t : Expr} (ht : t.isPlain = true)
    (hx : ¬ e.LooksUp .ofVariable x) (hbound : ∀ k y b, s.find k c y = some b → ¬ b.LooksUp .ofVariable x) (tag : Tag)
    {depth : Nat} (hdepth : (s.boundNames c).length + 1 < depth) :
    evaluateUpTo depth tag (((s.child c).1.bindVariable (s.child c).2 x e).env Float (s.child c).2) t =
        evaluateUpTo depth tag (s.env Float c) (Expr.substitute x e t) ∧
      evaluateUpTo depth tag (s.env Float c) (Expr.substitute x e t) ≠ .error .tooDeep := by
  rw [Store.env_child hs hc]
  simp only [← Store.bound?_env (α := Float)] at hbound
  have deepEnough {d : Nat} (hd : (s.boundNames c).length < d) (e : Expr) (tag : Tag) :
      evaluateUpTo d tag (s.env Float c) e ≠ .error .tooDeep := by
    intro h
    have hmeets := evaluateUpTo_meets_of_nonCyclic (Expectation.matching_kept False) (fun _ _ => trivial) hcycles
      (fun n b hb => Store.mem_boundNames (Store.bound?_env n.1 n.2 ▸ hb)) hd e tag
    rw [h] at hmeets
    exact hmeets
  obtain ⟨d, rfl⟩ : ∃ d, depth = d + 1 := ⟨depth - 1, by omega⟩
  have hd : (s.boundNames c).length < d := by omega
  refine ⟨?_, deepEnough (by omega) _ tag⟩
  refine evaluateWith_substitute (fun y tag => ?_) t tag ht
  by_cases hy : y = x
  · -- the expression itself is evaluated one level deeper as a binding than it is in the place of the variable
    subst hy
    have hvar : ((s.env Float c).bind y (.tree e)).vars y = some (.tree e) := if_pos rfl
    calc evaluateWith (evaluateUpTo d) (.var y) tag ((s.env Float c).bind y (.tree e))
      _ = evaluateUpTo d tag ((s.env Float c).bind y (.tree e)) e := by rw [evaluateWith, hvar]
      _ = evaluateUpTo d tag (s.env Float c) e := evaluateUpTo_bind hx hbound _ d tag
      _ = evaluateUpTo (d + 1) tag (s.env Float c) e := (evaluateUpTo_of_le (deepEnough hd e tag) d.le_succ).symm
      _ = evaluateWith (evaluateUpTo d) (Expr.substitute y e (.var y)) tag (s.env Float c) := by
        rw [Expr.substitute, if_pos rfl, evaluateUpTo]
  · have hvar : ((s.env Float c).bind x (.tree e)).vars y = (s.env Float c).vars y := if_neg hy
    rw [Expr.substitute, if_neg hy, evaluateWith, evaluateWith, hvar]
    split
    · rfl
    · rfl
    · rename_i b hb
      exact evaluateUpTo_bind (hbound .ofVariable y b (Env.bound?_ofVariable.mpr hb)) hbound _ d tag

/-- A session that binds `y` to 2 and, in a scope within the root, `z` to `y + 1`. -/
def nestedScopes : List Request :=
  [.bindName 0 "y" (.num (.int 2)), .openScope 0, .bindName 1 "z" (.expr (.plus (.var "y") (.int 1)))]

/-- With `-z` for `x`, a function of `x` and a product of `x`, both evaluated as numbers within a vector. -/
theorem evaluateUpTo_child_nestedScopes :
    let s := Store.session nestedScopes
    let inner := ((s.child 1).1.bindVariable (s.child 1).2 "x" (.neg (.var "z"))).env Float (s.child 1).2
    evaluate (.domain .vector) inner (.vector [.apply .abs (.var "x"), .times (.var "x") (.var "y")]) =
        evaluate (.domain .vector) (s.env Float 1)
          (.vector [.apply .abs (.neg (.var "z")), .times (.neg (.var "z")) (.var "y")]) ∧
      evaluate (.domain .vector) inner (.vector [.apply .abs (.var "x"), .times (.var "x") (.var "y")]) =
        .ok (.vector [3, -6]) := by
  intro s inner
  have hs : s.Earlier := (Store.records_session (by decide)).earlier
  have hchain : s.chain 1 = [⟨some 0, [("z", .plus (.var "y") (.int 1))], []⟩, ⟨none, [("y", .int 2)], []⟩] := rfl
  have hfind {k : NameSort} {x : String} {b : Expr} (h : s.find k 1 x = some b) :
      k = .ofVariable ∧ (x = "z" ∧ b = .plus (.var "y") (.int 1) ∨ x = "y" ∧ b = .int 2) := by
    obtain ⟨sc, hsc, hmem⟩ := Store.exists_scope_of_find h
    rw [hchain, List.mem_cons, List.mem_singleton] at hsc
    obtain rfl | rfl := hsc <;> cases k <;> simp_all [Scope.names]
  have hcycles : (s.env Float 1).NonCyclic := by
    -- only `z` leads on, and only to `y`
    have hleads {n m : NameSort × String} (h : (s.env Float 1).LeadsOn n m) : n.2 = "z" ∧ m.2 = "y" := by
      obtain ⟨b, hb, hm⟩ := h
      rw [Store.bound?_env] at hb
      obtain ⟨-, ⟨hz, rfl⟩ | ⟨-, rfl⟩⟩ := hfind hb
      · obtain ⟨-, hy⟩ | hm := hm
        · exact ⟨hz, hy⟩
        · cases hm
      · cases hm
    intro n hcycle
    obtain ⟨m, hfirst, -⟩ := Relation.TransGen.head'_iff.mp hcycle
    obtain ⟨l, -, hlast⟩ := Relation.TransGen.tail'_iff.mp hcycle
    have hy := (hleads hlast).2
    rw [(hleads hfirst).1] at hy
    exact absurd hy (by decide)
  have hsame := evaluateUpTo_child hs (c := 1) (by decide) hcycles (x := "x") (e := .neg (.var "z"))
    (t := .vector [.apply .abs (.var "x"), .times (.var "x") (.var "y")]) rfl (by simp [Expr.LooksUp]) ?_
    (.domain .vector) (show (s.boundNames 1).length + 1 < defaultDepth by decide)
  · exact ⟨hsame.1, rfl⟩
  · intro k y b hb
    obtain ⟨-, ⟨-, rfl⟩ | ⟨-, rfl⟩⟩ := hfind hb <;> simp [Expr.LooksUp]

end ExprCalculus
