import ExprCalculus.CommandLine.Basic
import ExprCalculus.Proofs.Evaluation.Expectation
import ExprCalculus.Proofs.Evaluation.FreeNames
import ExprCalculus.Proofs.Grammar.Rewriting
import ExprCalculus.Proofs.Scope.Session

/-!
# Bindings from the command line

The arguments after the expression are bound in the root scope, one name each, to values that are read from their texts.
Neither functions nor other scopes come from the command line, and of compositions none is read: the free names of a
value are all the variables that it looks up.

* `Progress.Ends` - what a computation may end with, and the rules for its steps.
* `namesFree_of_parse` - an expression read looks up its free names.
* `bindArguments_ends` - the store after the arguments, and the failures on the way.
-/

namespace ExprCalculus

/-! ## The names of what is read -/

namespace Expr

/-- Whether the free names of an expression are all the variables that it looks up. -/
def NamesFree (e : Expr) : Prop := e.NamesIn {x | x ∈ e.freeVars} Set.univ

variable {a b : Expr}

/-- The parts of a node look up their own free names, which are among those of the node. -/
theorem NamesFree.pair (ha : a.NamesFree) (hb : b.NamesFree) :
    a.NamesIn {x | x ∈ a.freeVars ++ b.freeVars} Set.univ ∧ b.NamesIn {x | x ∈ a.freeVars ++ b.freeVars} Set.univ :=
  ⟨ha.mono a fun _ => List.mem_append_left _, hb.mono b fun _ => List.mem_append_right _⟩

theorem namesFree_vector {es : List Expr} (h : ∀ e ∈ es, e.NamesFree) : NamesFree (.vector es) := by
  have general : ∀ ds : List Expr, (∀ d ∈ ds, d ∈ es) → AllNamesIn ds {x | x ∈ freeVarsOf es} Set.univ := by
    intro ds
    induction ds with
    | nil => exact fun _ => trivial
    | cons d ds ih =>
      intro hds
      have hd := hds d List.mem_cons_self
      refine ⟨(h d hd).mono d fun x hx => mem_freeVarsOf.2 ⟨d, hd, hx⟩, ih fun c hc => ?_⟩
      exact hds c (List.mem_cons_of_mem _ hc)
  exact general es fun _ he => he

theorem namesFree_of_applied {name : List Char} {as : List Expr} (h : Grammar.Applied name as a)
    (has : ∀ b ∈ as, b.NamesFree) : a.NamesFree := by
  cases h with
  | decimalLog b =>
    have hten : NamesFree (.int 10) := trivial
    exact hten.pair (has b (by simp))
  | log b c => exact (has b (by simp)).pair (has c (by simp))
  | root n b _ | function _ fn b _ => exact has b (by simp)

end Expr

namespace Grammar

open ExprCalculus.Expr (NamesFree)

theorem Spells.namesFree {j : Bool} {p : Phrase} {ts : List Token} {m : p.Meaning} (h : Spells j p ts m) :
    p.All NamesFree m := by
  induction h with
  | term _ ih | factor _ ih | unsigned _ ih | base _ ih | neg _ _ ih | pos _ _ ih | group _ _ _ _ ih => exact ih
  | sum _ _ _ iha ihb | product _ _ _ iha ihb | power _ _ _ iha ihb | beside _ _ _ _ iha ihb
  | interval _ _ _ _ _ iha ihb => exact NamesFree.pair iha ihb
  | number _ | constant _ _ | literal _ _ _ _ => exact trivial
  | call _ _ _ _ => exact Set.mem_univ _
  | var _ _ => exact List.mem_singleton_self _
  | function _ _ _ _ ha ih => exact Expr.namesFree_of_applied ha ih
  | vector _ _ _ ih => exact Expr.namesFree_vector ih
  | one _ ih =>
    intro e he
    rw [List.mem_singleton.1 he]
    exact ih
  | more _ _ _ iha ihas => exact List.forall_mem_cons.2 ⟨iha, ihas⟩

/-- An expression read from a text looks up its free names. -/
theorem namesFree_of_parse {j : Bool} {text : String} {e : Expr} (h : parse j text = .ok e) : e.NamesFree := by
  obtain ⟨ts, p, _, hs⟩ := spellsText_of_parse h
  exact hs.namesFree

end Grammar

namespace CommandLine

/-! ## Computations and their failures -/

namespace Failure

/-- The kinds of errors that the program deals with. -/
def kindsDealtWith : List String :=
  ["SyntaxError", "ValueError", "ZeroDivisionError", "UnboundVariableError", "UnboundFunctionError",
    "UnsupportedDomainError", "UnsupportedDimensionError", "UnsupportedOperationError"]

/-- A failure of such a kind, which the program does not end with. -/
def IsContained (e : Failure) : Prop := e.escapes = false ∧ e.label ∈ kindsDealtWith

end Failure

namespace Progress

variable {α β : Type} {P : α → Prop} {P' : β → Prop} {Q : Failure → Prop}

/-- A computation that ends with a result of `P` or a failure of `Q`. -/
def Ends (P : α → Prop) (Q : Failure → Prop) (p : Progress α) : Prop :=
  match p.result with
  | .ok a => P a
  | .error e => Q e

theorem Ends.of_ok {p : Progress α} (h : p.Ends P Q) {a : α} (ha : p.result = .ok a) : P a := by
  unfold Ends at h
  rwa [ha] at h

theorem Ends.of_error {p : Progress α} (h : p.Ends P Q) {e : Failure} (he : p.result = .error e) : Q e := by
  unfold Ends at h
  rwa [he] at h

/-- A step after another, of which the result is known. -/
theorem Ends.bind {p : Progress α} {f : α → Progress β} (h : p.Ends P Q)
    (hf : ∀ a, p.result = .ok a → P a → (f a).Ends P' Q) : (p >>= f).Ends P' Q := by
  show (match (andThen p f).result with | .ok b => P' b | .error e => Q e)
  unfold andThen
  cases hp : p.result with
  | error e => exact h.of_error hp
  | ok a => exact hf a hp (h.of_ok hp)

/-- What is known of a step is left out of what comes after it. -/
theorem result_bind {p : Progress α} {f : α → Progress β} {a : α} (h : p.result = .ok a) :
    (p >>= f).result = (f a).result := by
  show (andThen p f).result = _
  simp only [andThen, h]

/-- What comes after a step that fails is left out. -/
theorem result_bind_error {p : Progress α} {f : α → Progress β} {e : Failure} (h : p.result = .error e) :
    (p >>= f).result = .error e := by
  show (andThen p f).result = _
  simp only [andThen, h]

theorem ends_pure {a : α} (h : P a) : (pure a : Progress α).Ends P Q := h

theorem ends_note (part line : String) : (note part line).Ends (fun _ => True) Q := trivial

theorem ends_print (line : String) : (print line).Ends (fun _ => True) Q := trivial

theorem ends_stop {e : Failure} (h : Q e) : (stop e : Progress α).Ends P Q := h

theorem Ends.imp {p : Progress α} {Q' : Failure → Prop} (h : p.Ends P Q) (hQ : ∀ e, Q e → Q' e) : p.Ends P Q' := by
  unfold Ends at h ⊢
  split
  · rename_i a ha
    rwa [ha] at h
  · rename_i e he
    rw [he] at h
    exact hQ e h

end Progress

open Progress Failure
open ExprCalculus.Expr (NamesFree)

/-! ## Reading -/

variable (j : Bool)

theorem readExpression_ends (text : String) : (readExpression j text).Ends NamesFree IsContained := by
  refine (ends_note _ _).bind fun _ _ _ => ?_
  split
  · exact ends_stop ⟨rfl, show "SyntaxError" ∈ kindsDealtWith by decide⟩
  · rename_i e he
    exact (ends_note _ _).bind fun _ _ _ => ends_pure (Grammar.namesFree_of_parse he)

theorem readAll_ends (texts : List (List Char)) : (readAll j texts).Ends (∀ e ∈ ·, NamesFree e) IsContained := by
  induction texts with
  | nil => exact ends_pure (by simp)
  | cons t ts ih =>
    refine (readExpression_ends j _).bind fun e _ he => ih.bind fun es _ hes => ?_
    exact ends_pure (List.forall_mem_cons.2 ⟨he, hes⟩)

theorem readValue_ends (text : String) : (readValue j text).Ends NamesFree IsContained := by
  unfold readValue
  split
  · refine (readExpression_ends j _).bind fun a _ ha => (readExpression_ends j _).bind fun b _ hb => ?_
    exact ends_pure (ha.pair hb)
  · split
    · exact (readAll_ends j _).bind fun es _ hes => ends_pure (Expr.namesFree_vector hes)
    · exact readExpression_ends j text

variable {j}

theorem readExpression_of_parse {text : String} {e : Expr} (h : Grammar.parse j text = .ok e) :
    (readExpression j text).result = .ok e := by
  unfold readExpression
  rw [result_bind rfl]
  simp only [h]
  rfl

theorem readExpression_of_error {text : String} {err : Grammar.ParseError} (h : Grammar.parse j text = .error err) :
    (readExpression j text).result = .error (.parsing text err) := by
  unfold readExpression
  rw [result_bind rfl]
  simp only [h]
  rfl

/-- The text of a printable expression is read as the expression. -/
theorem readExpression_text {text : String} {e : Expr} (h : Grammar.Printable e) (htext : e.text = text) :
    (readExpression j text).result = .ok e := by
  rw [← htext]
  exact readExpression_of_parse (Grammar.parse_of_spellsText (h.spellsText j))

/-! ## Binding -/

/-- A store of a root scope alone, which binds at most `n` variables, to values that look up their free names. -/
def RootScope (n : Nat) (s : Store) : Prop :=
  ∃ vars : Names, s.scopes = [⟨none, vars, []⟩] ∧ vars.length ≤ n ∧ ∀ b ∈ vars, b.2.NamesFree

theorem rootScope_initial : RootScope 0 Store.initial := ⟨[], rfl, Nat.le_refl 0, by simp⟩

theorem length_put_le (ns : Names) (x : String) (e : Expr) : (ns.put x e).length ≤ ns.length + 1 := by
  induction ns with
  | nil => simp [Names.put]
  | cons b ns ih =>
    unfold Names.put
    split
    · simp
    · simpa using ih

theorem mem_put {ns : Names} {x : String} {e : Expr} {b : String × Expr} (h : b ∈ ns.put x e) :
    b = (x, e) ∨ b ∈ ns := by
  induction ns with
  | nil => simpa [Names.put] using h
  | cons c ns ih =>
    unfold Names.put at h
    split at h
    · rename_i hc
      subst hc
      exact (List.mem_cons.1 h).imp id (List.mem_cons_of_mem _)
    · obtain rfl | h := List.mem_cons.1 h
      · exact .inr List.mem_cons_self
      · exact (ih h).imp id (List.mem_cons_of_mem _)

variable {n : Nat} {s : Store}

theorem RootScope.bindVariable (hs : RootScope n s) (x : String) {e : Expr} (he : e.NamesFree) :
    RootScope (n + 1) (s.bindVariable 0 x e) := by
  obtain ⟨vars, hscopes, hlength, hvars⟩ := hs
  refine ⟨vars.put x e, by simp [Store.bindVariable, hscopes], ?_, fun b hb => ?_⟩
  · exact (length_put_le vars x e).trans (Nat.succ_le_succ hlength)
  · obtain rfl | hb := mem_put hb
    · exact he
    · exact hvars b hb

theorem bindArgument_ends (hs : RootScope n s) (arg : String) :
    (bindArgument j s arg).Ends (RootScope (n + 1)) IsContained := by
  unfold bindArgument
  split
  · exact ends_stop ⟨rfl, show "ValueError" ∈ kindsDealtWith by decide⟩
  · exact ends_stop ⟨rfl, show "ValueError" ∈ kindsDealtWith by decide⟩
  · refine (readValue_ends j _).bind fun e _ he => (ends_note _ _).bind fun _ _ _ => ?_
    exact ends_pure (hs.bindVariable _ he)

/-- The store after all the arguments, by induction over them. -/
theorem bindArguments_ends (args : List String) (hs : RootScope n s) :
    (bindArguments j s args).Ends (RootScope (n + args.length)) IsContained := by
  induction args generalizing n s with
  | nil => exact ends_pure hs
  | cons arg args ih =>
    refine (bindArgument_ends hs arg).bind fun s' _ hs' => ?_
    rw [List.length_cons, Nat.add_comm args.length, ← Nat.add_assoc]
    exact ih hs'

/-- An argument that binds a name to an interval. -/
theorem bindArguments_interval {arg value lo hi : String} {a b : Expr}
    (hequals : splitFirst '=' arg.toList = (['x'], some value.toList))
    (hcolon : splitFirst ':' value.toList = (lo.toList, some hi.toList))
    (ha : (readExpression j lo).result = .ok a) (hb : (readExpression j hi).result = .ok b) :
    (bindArguments j Store.initial [arg]).result = .ok ⟨[⟨none, [("x", .interval a b)], []⟩]⟩ := by
  have hvalue : (readValue j value).result = .ok (.interval a b) := by
    unfold readValue
    simp only [hcolon, String.ofList_toList]
    rw [result_bind ha, result_bind hb]
    rfl
  have harg : (bindArgument j Store.initial arg).result = .ok ⟨[⟨none, [("x", .interval a b)], []⟩]⟩ := by
    unfold bindArgument
    simp only [hequals, String.ofList_toList]
    rw [result_bind hvalue]
    rfl
  unfold bindArguments
  rw [result_bind harg]
  rfl

/-! ## The environment -/

section

variable {α : Type} {x : String} {e : Expr}

theorem lookup_of_vars (h : (s.env α 0).vars x = some (.tree e)) : s.lookup 0 x = some e := by
  obtain ⟨e', he', he⟩ := Option.map_eq_some_iff.1 h
  cases he
  exact he'

theorem lookup_of_root {vars : Names} (h : s.scopes = [⟨none, vars, []⟩]) (x : String) :
    s.lookup 0 x = vars.get? x := by
  simp [Store.lookup, Store.chain, Store.chainUpTo, h]

theorem RootScope.funcs (hs : RootScope n s) (f : String) : (s.env α 0).funcs f = none := by
  obtain ⟨vars, hscopes, _⟩ := hs
  simp [Store.env, Store.lookupFunction, Store.chain, Store.chainUpTo, hscopes, Names.get?]

/-- The values that names are bound to. -/
theorem RootScope.exists_vars (hs : RootScope n s) : ∃ names : List String, names.length ≤ n ∧
    ∀ x e, (s.env α 0).vars x = some (.tree e) → x ∈ names ∧ e.NamesFree := by
  obtain ⟨vars, hscopes, hlength, hvars⟩ := hs
  refine ⟨vars.map Prod.fst, by simpa using hlength, fun x e he => ?_⟩
  have hget : vars.get? x = some e := by
    rw [← lookup_of_root hscopes x]
    exact lookup_of_vars he
  exact ⟨List.mem_map.2 ⟨_, Names.mem_of_get? hget, rfl⟩, hvars _ (Names.mem_of_get? hget)⟩

end

end CommandLine

end ExprCalculus
