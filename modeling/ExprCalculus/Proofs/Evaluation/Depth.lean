import ExprCalculus.Evaluation.Basic

/-!
# The depth of an evaluation

An evaluation may lead through a limited number of bindings.  Each kind of node hands on that one of its parts led
through too many, and otherwise goes by what its parts come to; so what an evaluation comes to within a limit, it comes
to within a larger one.

* `evaluateWith_deepens` - one tree, by its parts.
* `evaluateUpTo_of_le` - any number of bindings.
-/

namespace ExprCalculus

variable {α : Type}

/-- What a larger limit makes of an outcome: nothing else, unless the smaller one was exceeded. -/
def Deepens {β : Type} (o o' : Except (EvalError α) β) : Prop := o = .error .tooDeep ∨ o' = o

theorem Deepens.refl {β : Type} (o : Except (EvalError α) β) : Deepens o o := .inr rfl

/-- What goes by the outcome of a part: it hands on that this led through too many bindings, and is otherwise the
same. -/
@[elab_as_elim]
theorem Deepens.elim {β : Type} {motive : Except (EvalError α) β → Except (EvalError α) β → Prop}
    {o o' : Except (EvalError α) β} (h : Deepens o o') (deep : ∀ o', motive (.error .tooDeep) o')
    (error : ∀ e, motive (.error e) (.error e)) (ok : ∀ v, motive (.ok v) (.ok v)) : motive o o' := by
  obtain rfl | rfl := h
  · exact deep o'
  · cases o' with
    | error e => exact error e
    | ok v => exact ok v

variable [Scalar α] {bound bound' : Tag → Env α → Expr → Outcome α}

mutual

/-- A tree comes to the same within a larger limit, if what names are bound to does. -/
theorem evaluateWith_deepens (h : ∀ tag env e, Deepens (bound tag env e) (bound' tag env e)) :
    ∀ (e : Expr) (tag : Tag) (env : Env α), Deepens (evaluateWith bound e tag env) (evaluateWith bound' e tag env)
  | .number _, _, _ => .refl _
  | .var x, _, env => by
    simp only [evaluateWith]
    cases env.vars x with
    | none => exact .refl _
    | some b =>
      cases b with
      | number y => exact .refl _
      | tree e => exact h _ _ _
  | .call f, _, env => by
    simp only [evaluateWith]
    cases env.funcs f with
    | none => exact .refl _
    | some e => exact h _ _ _
  | .fixed e, tag, env => evaluateWith_deepens h e tag env
  | .custom _ _ body, tag, env => evaluateWith_deepens h body tag env
  | .vector es, tag, env => by
    simp only [evaluateWith]
    refine (evaluateAll_deepens h es (.domain .real) env).elim (fun _ => ?_) (fun _ => .refl _) fun _ => .refl _
    split
    · exact .inl rfl
    · split
      · exact .inl rfl
      · exact .refl _
    · exact .refl _
  | .interval a b, tag, env => by
    simp only [evaluateWith]
    split
    · have hb := evaluateWith_deepens h b (.domain .real) env
      refine (evaluateWith_deepens h a (.domain .real) env).elim (fun _ => .inl rfl) (fun _ => .refl _) fun x => ?_
      exact hb.elim (fun _ => .inl rfl) (fun _ => .refl _) fun y => .refl _
    · exact .refl _
  | .binary op a b, tag, env => by
    simp only [evaluateWith]
    have hb := evaluateWith_deepens h b (secondTag op tag) env
    refine (evaluateWith_deepens h a tag env).elim (fun _ => .inl rfl) (fun _ => .refl _) fun x => ?_
    exact hb.elim (fun _ => .inl rfl) (fun _ => .refl _) fun y => .refl _
  | .neg a, tag, env => by
    simp only [evaluateWith]
    cases tag with
    | other s => exact .refl _
    | domain d =>
      exact (evaluateWith_deepens h a (.domain d) env).elim (fun _ => .inl rfl) (fun _ => .refl _) fun x => .refl _
  | .apply fn a, tag, env | .root n a, tag, env => by
    simp only [evaluateWith]
    split
    · exact (evaluateWith_deepens h a tag env).elim (fun _ => .inl rfl) (fun _ => .refl _) fun x => .refl _
    · exact .refl _
  | .log a b, tag, env => by
    simp only [evaluateWith]
    split
    · refine (evaluateWith_deepens h b tag env).elim (fun _ => .inl rfl) (fun _ => .refl _) fun y => ?_
      dsimp only
      cases applyFunction .ln y with
      | error f => exact .refl _
      | ok l =>
        exact (evaluateWith_deepens h a tag env).elim (fun _ => .inl rfl) (fun _ => .refl _) fun x => .refl _
    · exact .refl _
  | .compose f g, tag, env => by
    simp only [evaluateWith]
    split
    · exact .refl _
    · have hf := evaluateWith_deepens h f (innerTag g.args.length) env
      refine hf.elim (fun _ => .inl rfl) (fun _ => .refl _) fun v => ?_
      dsimp only
      cases handedOver f.functionName g.args.length v with
      | error e => exact .refl _
      | ok xs => exact evaluateWith_deepens h g tag _

theorem evaluateAll_deepens (h : ∀ tag env e, Deepens (bound tag env e) (bound' tag env e)) :
    ∀ (es : List Expr) (tag : Tag) (env : Env α), Deepens (evaluateAll bound es tag env) (evaluateAll bound' es tag env)
  | [], _, _ => .refl _
  | e :: es, tag, env => by
    simp only [evaluateAll]
    refine (evaluateWith_deepens h e tag env).elim (fun _ => .inl rfl) (fun _ => .refl _) fun v => ?_
    exact (evaluateAll_deepens h es tag env).elim (fun _ => .inl rfl) (fun _ => .refl _) fun vs => .refl _

end

theorem evaluateUpTo_deepens (depth : Nat) (tag : Tag) (env : Env α) (e : Expr) :
    Deepens (evaluateUpTo depth tag env e) (evaluateUpTo (depth + 1) tag env e) := by
  induction depth generalizing tag env e with
  | zero => exact .inl rfl
  | succ depth ih => exact evaluateWith_deepens ih e tag env

/-- **An evaluation that does not lead through too many bindings** comes to the same within any larger limit. -/
theorem evaluateUpTo_of_le {depth depth' : Nat} {tag : Tag} {env : Env α} {e : Expr}
    (h : evaluateUpTo depth tag env e ≠ .error .tooDeep) (hle : depth ≤ depth') :
    evaluateUpTo depth' tag env e = evaluateUpTo depth tag env e := by
  induction hle with
  | refl => rfl
  | @step n _ ih =>
    obtain hdeep | hsame := evaluateUpTo_deepens n tag env e
    · rw [ih] at hdeep
      exact absurd hdeep h
    · rw [hsame, ih]

end ExprCalculus
