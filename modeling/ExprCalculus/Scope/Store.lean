import ExprCalculus.Evaluation.Env
import ExprCalculus.Expr.Display

/-!
# Scopes

A store holds a tree of scopes, numbered in the order in which they were opened; scope 0 is a root.  Each
scope binds variables and functions to expressions.  A name is looked up in a scope and then in those
around it, and the nearest binding counts; binding a name changes one scope only.  A name that is bound
again keeps its place in the order of the scope's names, in which they are shown.
-/

namespace ExprCalculus

/-- Names with what they are bound to, in the order of their first binding. -/
abbrev Names := List (String × Expr)

namespace Names

/-- What a name is bound to. -/
def get? (ns : Names) (name : String) : Option Expr :=
  match ns with
  | [] => none
  | (x, e) :: rest => if x = name then some e else get? rest name

/-- Binds a name, at its place if it is bound already. -/
def put (ns : Names) (name : String) (e : Expr) : Names :=
  match ns with
  | [] => [(name, e)]
  | (x, old) :: rest => if x = name then (x, e) :: rest else (x, old) :: put rest name e

end Names

/-- A scope and its own bindings. -/
structure Scope where
  /-- the scope around it; a root has none -/
  parent : Option Nat
  vars : Names
  funcs : Names

/-- A scope without bindings. -/
def Scope.empty (parent : Option Nat) : Scope := ⟨parent, [], []⟩

/-- All scopes opened so far. -/
structure Store where
  scopes : List Scope

namespace Store

/-- A root scope alone. -/
def initial : Store := ⟨[.empty none]⟩

/-- Opens a scope within another; its number is the second result. -/
def child (s : Store) (scope : Nat) : Store × Nat :=
  (⟨s.scopes ++ [.empty (some scope)]⟩, s.scopes.length)

/-- Binds a variable in a scope. -/
def bindVariable (s : Store) (scope : Nat) (name : String) (e : Expr) : Store :=
  ⟨s.scopes.modify scope fun sc => { sc with vars := sc.vars.put name e }⟩

/-- Binds a function name in a scope. -/
def bindFunction (s : Store) (scope : Nat) (name : String) (e : Expr) : Store :=
  ⟨s.scopes.modify scope fun sc => { sc with funcs := sc.funcs.put name e }⟩

/-- A scope and those around it, at most the given number of them. -/
def chainUpTo (s : Store) : Nat → Nat → List Scope
  | 0, _ => []
  | count + 1, scope =>
    match s.scopes[scope]? with
    | none => []
    | some sc =>
      match sc.parent with
      | none => [sc]
      | some p => sc :: chainUpTo s count p

/-- A scope and those around it, the nearest first.  A scope is opened after the one around it. -/
def chain (s : Store) (scope : Nat) : List Scope := chainUpTo s (scope + 1) scope

/-- What a variable is bound to in the nearest scope that binds it. -/
def lookup (s : Store) (scope : Nat) (name : String) : Option Expr :=
  (s.chain scope).findSome? fun sc => sc.vars.get? name

/-- What a function name is bound to in the nearest scope that binds it. -/
def lookupFunction (s : Store) (scope : Nat) (name : String) : Option Expr :=
  (s.chain scope).findSome? fun sc => sc.funcs.get? name

/-- What the names stand for in a scope. -/
def env (α : Type) (s : Store) (scope : Nat) : Env α where
  vars name := (s.lookup scope name).map .tree
  funcs name := s.lookupFunction scope name

end Store

/-! ## How a scope is written -/

/-- Texts between braces. -/
def braced (texts : List String) : String := "\x7b" ++ ", ".intercalate texts ++ "\x7d"

/-- The text of a scope: whether there is one around it, its variables with their expressions, and its
functions. -/
def Scope.text (sc : Scope) : String :=
  "ContextModel[PARENT: " ++ (if sc.parent.isSome then "yes" else "none") ++ ", VARS: "
    ++ braced (sc.vars.map fun (x, e) => x ++ " = " ++ e.text) ++ ", FUNCS: "
    ++ braced (sc.funcs.map fun (_, f) => f.text) ++ "]"

/-- The text of a numbered scope. -/
def Store.text (s : Store) (scope : Nat) : String := ((s.scopes[scope]?).map Scope.text).getD ""

end ExprCalculus
