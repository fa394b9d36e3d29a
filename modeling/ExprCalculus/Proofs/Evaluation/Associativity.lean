import ExprCalculus.Proofs.Evaluation.CompositionNames

/-!
# Compositions of three functions

Composed in either order, three functions are evaluated one after the other, under the same tags, and hand the same
numbers over.  What differs is where the last one is evaluated: if the first two are composed first, nothing but its own
parameters is bound; if the last two are, the parameters of the second are bound below them.  That is of no account to a
function that looks up its own parameters and nothing else.

Only the values agree.  Where there is none, the two orders may give different errors, since they look at the numbers of
parameters at different times and blame different functions.

* `Expr.PlainOver.evaluateWith_bindArguments` — a closed function does not see what was bound before.
* `evaluate_compose_assoc` — the values of both compositions.
-/

namespace ExprCalculus

section

variable {α : Type} [Scalar α] {bound : Tag → Env α → Expr → Outcome α} {f g h : Expr} {env : Env α}

/-! ## Functions of their parameters -/

/-- A function that looks up its own parameters alone does not see what was bound before them. -/
theorem Expr.PlainOver.evaluateWith_bindArguments (hclosed : h.PlainOver {x | x ∈ h.parameterNames}) {xs : List α}
    (hlength : xs.length = h.args.length) (tag : Tag) (env env' : Env α) :
    evaluateWith bound h tag (env.bindArguments h.args xs) =
      evaluateWith bound h tag (env'.bindArguments h.args xs) := by
  have hnothing : env.Alike (fun _ _ => False) ∅ ∅ env' := ⟨fun x hx => hx.elim, fun f hf => hf.elim⟩
  have halike := hnothing.bindArguments (g := h) hlength
  rw [Set.empty_union] at halike
  exact evaluateWith_alike (fun _ _ _ _ hfalse => hfalse.elim) h tag (Set.empty_subset _) halike
    (PlainOver.namesIn h hclosed)

/-! ## Associativity -/

/-- What a composition hands over: what its outer function does, for what the inner one hands over to that. -/
theorem handsOver_compose {dimension : Nat} {ys : List α} :
    HandsOver bound (.compose f g) dimension env ys ↔
      (1 ≤ g.args.length ∧ g.args.length ≤ 4) ∧
        ∃ xs, HandsOver bound f g.args.length env xs ∧ HandsOver bound g dimension (env.bindArguments g.args xs) ys := by
  constructor
  · rintro ⟨w, hw, hover⟩
    obtain ⟨hdim, xs, hxs, hg⟩ := evaluateWith_compose_iff.1 hw
    exact ⟨hdim, xs, hxs, w, hg, handedOver_eq_ok_iff.2 (handedOver_eq_ok_iff.1 hover)⟩
  · rintro ⟨hdim, xs, hxs, w, hg, hover⟩
    exact ⟨w, evaluateWith_compose_iff.2 ⟨hdim, xs, hxs, hg⟩, handedOver_eq_ok_iff.2 (handedOver_eq_ok_iff.1 hover)⟩

/-- **Composition is associative** if the outermost function is without calls and compositions and looks up nothing but
its own parameters: where either of the two compositions has a value, both have it. -/
theorem evaluate_compose_assoc (hclosed : h.PlainOver {x | x ∈ h.parameterNames}) (depth : Nat) (tag : Tag)
    (env : Env α) (v : Value α) :
    evaluateUpTo depth tag env (.compose (.compose f g) h) = .ok v ↔
      evaluateUpTo depth tag env (.compose f (.compose g h)) = .ok v := by
  cases depth with
  | zero => exact Iff.rfl
  | succ depth =>
    have hforget {xs ys : List α}
        (hys : HandsOver (evaluateUpTo depth) g h.args.length (env.bindArguments g.args xs) ys) :
        evaluateWith (evaluateUpTo depth) h tag (env.bindArguments h.args ys) =
          evaluateWith (evaluateUpTo depth) h tag ((env.bindArguments g.args xs).bindArguments h.args ys) :=
      hclosed.evaluateWith_bindArguments hys.length tag env _
    simp only [evaluateUpTo, evaluateWith_compose_iff, handsOver_compose]
    constructor
    · rintro ⟨hh, ys, ⟨hg, xs, hxs, hys⟩, hv⟩
      exact ⟨hg, xs, hxs, hh, ys, hys, (hforget hys).symm.trans hv⟩
    · rintro ⟨hg, xs, hxs, hh, ys, hys, hv⟩
      exact ⟨hh, ys, ⟨hg, xs, hxs, hys⟩, (hforget hys).trans hv⟩

end

/-- `f(x) = {x, x + 1}`. -/
def Expr.withSuccessor : Expr := .custom "f" [.var "x"] (.vector [.var "x", .plus (.var "x") (.int 1)])

/-- `g(x, y) = {x * y, x}`. -/
def Expr.productWithFirst : Expr :=
  .custom "g" [.var "x", .var "y"] (.vector [.times (.var "x") (.var "y"), .var "x"])

/-- `h(y, z) = y - z`, in which `y` is not the `y` of `g`. -/
def Expr.difference : Expr := .custom "h" [.var "y", .var "z"] (.minus (.var "y") (.var "z"))

/-- At two, the functions give two and three, then six and two, then four. -/
theorem evaluate_compose_assoc_difference :
    Expr.difference.PlainOver {x | x ∈ Expr.difference.parameterNames} ∧
    evaluate (.domain .real) Env.withTwo
      (.compose (.compose Expr.withSuccessor Expr.productWithFirst) Expr.difference) = .ok (.real 4) ∧
    evaluate (.domain .real) Env.withTwo
      (.compose Expr.withSuccessor (.compose Expr.productWithFirst Expr.difference)) = .ok (.real 4) := by
  have hclosed : Expr.difference.PlainOver {x | x ∈ Expr.difference.parameterNames} := ⟨rfl, by decide⟩
  have hleft : evaluate (.domain .real) Env.withTwo
      (.compose (.compose Expr.withSuccessor Expr.productWithFirst) Expr.difference) = .ok (.real 4) := rfl
  exact ⟨hclosed, hleft, (evaluate_compose_assoc hclosed defaultDepth _ _ _).1 hleft⟩

/-- A function that looks up `x` besides finds there what the caller has bound, or the parameter of the second. -/
example :
    evaluate (.domain .real) Env.withTwo (.compose (.compose (.custom "f" [] (.int 1))
      (.custom "g" [.var "x"] (.int 3))) (.custom "h" [.var "z"] (.var "x"))) = .ok (.real 2) ∧
    evaluate (.domain .real) Env.withTwo (.compose (.custom "f" [] (.int 1))
      (.compose (.custom "g" [.var "x"] (.int 3)) (.custom "h" [.var "z"] (.var "x")))) = .ok (.real 1) :=
  ⟨rfl, rfl⟩

end ExprCalculus
