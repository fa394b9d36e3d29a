import ExprCalculus.CommandLine.Options
import ExprCalculus.Derivative
import ExprCalculus.Evaluation.Basic
import ExprCalculus.Expr.Build
import ExprCalculus.Form.Display
import ExprCalculus.Form.OfExpr
import ExprCalculus.Grammar.Parser
import ExprCalculus.Scope.Store
import ExprCalculus.Simplify
import ExprCalculus.Value.Real

/-!
# The command line

The first argument is an expression, the others bind names to values.  The expression is differentiated and
simplified as the options ask, shown, shown as an algebraic form, and evaluated if all its names are bound.
What is written goes to two channels, one for results and one for a log and errors.

The settings, which a session may change as well, are whether operands side by side are multiplied, and how many
passes of simplification are done at most.
-/

namespace ExprCalculus

/-! ## Settings -/

/-- What a session may change. -/
structure Settings where
  juxtapose : Bool
  passLimit : Nat

/-- The settings at the start. -/
def Settings.initial : Settings := ⟨true, Expr.defaultPassLimit⟩

/-- A limit of passes that is no positive integer. -/
structure LimitError where
  part : Part

/-- The message of the error. -/
def LimitError.message (e : LimitError) : String :=
  "fixpoint pass limit must be a positive integer, not " ++ e.part.display

/-- The limit of passes that a part stands for; the truth value counts as one. -/
def passLimit : Part → Except LimitError Nat
  | .num (.int n) => if 1 ≤ n then .ok n.toNat else .error ⟨.num (.int n)⟩
  | .truth true => .ok 1
  | p => .error ⟨p⟩

namespace CommandLine

/-! ## Failures -/

/-- Why a run fails after its options are read. -/
inductive Failure where
  /-- a limit that is no integer -/
  | limitText (text : String)
  | limit (e : LimitError)
  | parsing (text : String) (e : Grammar.ParseError)
  | binding (arg : String)
  | derivative (e : DeriveError)
  /-- an expression that has no algebraic form -/
  | form (e : FormFault)
  | evaluation (e : EvalError Float)

namespace Failure

/-- The name of a failure's kind. -/
def label : Failure → String
  | .limitText _ | .limit _ | .binding _ => "ValueError"
  | .parsing .. => "SyntaxError"
  | .derivative _ => "UnsupportedOperationError"
  | .form e => e.label
  | .evaluation e => e.label

/-- A quoted text of which at most two hundred characters are shown. -/
def shortened (s : String) : String := String.ofList ((Text.quoted s).toList.take 200)

/-- The message of a failure. -/
def message : Failure → String
  | .limitText s => "invalid literal for int() with base 10: " ++ shortened s
  | .limit e => e.message
  | .parsing text e => e.message text
  | .binding arg => "invalid binding " ++ Text.quoted arg ++ ", expecting name=value"
  | .derivative e => e.message
  | .form e => e.message
  | .evaluation e => e.message Decimal.floatText

/-- Whether the program ends without dealing with the failure. -/
def escapes : Failure → Bool
  | .evaluation (.fault f) => f.faultClass = .overflow || f.faultClass = .kind
  | .evaluation .tooDeep | .evaluation (.invalidTag _) => true
  | _ => false

end Failure

/-- A computation that writes lines of results and of a log as it goes on. -/
structure Progress (α : Type) where
  out : List String
  log : List String
  result : Except Failure α

namespace Progress

/-- A result without lines. -/
def done {α : Type} (r : Except Failure α) : Progress α := ⟨[], [], r⟩

/-- A computation after another, unless that failed. -/
def andThen {α β : Type} (p : Progress α) (f : α → Progress β) : Progress β :=
  match p.result with
  | .error e => ⟨p.out, p.log, .error e⟩
  | .ok a => ⟨p.out ++ (f a).out, p.log ++ (f a).log, (f a).result⟩

instance : Monad Progress where
  pure a := done (.ok a)
  bind := andThen

/-- Writes a line of results. -/
def print (line : String) : Progress Unit := ⟨[line], [], .ok ()⟩

/-- Writes a line of the log, which names the part of the program it comes from. -/
def note (part line : String) : Progress Unit := ⟨[], [part ++ ": " ++ line], .ok ()⟩

/-- Stops with a failure. -/
def stop {α : Type} (e : Failure) : Progress α := done (.error e)

end Progress

open Progress

/-! ## Reading expressions and bindings -/

/-- Reads an expression. -/
def readExpression (juxtapose : Bool) (text : String) : Progress Expr := do
  note "mparser" ("parsing " ++ Text.quoted text)
  match Grammar.parse juxtapose text with
  | .error e => stop (.parsing text e)
  | .ok e =>
    note "mparser" ("parsed " ++ Text.quoted text ++ " -> " ++ e.text)
    return e

/-- A text split at every occurrence of a character. -/
def splitAll (sep : Char) : List Char → List (List Char)
  | [] => [[]]
  | c :: cs =>
    if c = sep then [] :: splitAll sep cs
    else
      match splitAll sep cs with
      | [] => [[c]]
      | part :: parts => (c :: part) :: parts

/-- Reads several expressions. -/
def readAll (juxtapose : Bool) : List (List Char) → Progress (List Expr)
  | [] => return []
  | t :: ts => do
    let e ← readExpression juxtapose (String.ofList t)
    let es ← readAll juxtapose ts
    return e :: es

/-- Reads a value: the bounds of an interval around a colon, the elements of a vector between commas, or an
expression. -/
def readValue (juxtapose : Bool) (text : String) : Progress Expr :=
  match splitFirst ':' text.toList with
  | (lo, some hi) => do
    let a ← readExpression juxtapose (String.ofList lo)
    let b ← readExpression juxtapose (String.ofList hi)
    return .interval a b
  | (_, none) =>
    if text.toList.contains ',' then do
      let es ← readAll juxtapose (splitAll ',' text.toList)
      return .vector es
    else readExpression juxtapose text

/-- Binds the name before the first equals sign to the value after it. -/
def bindArgument (juxtapose : Bool) (s : Store) (arg : String) : Progress Store :=
  match splitFirst '=' arg.toList with
  | ([], _) | (_, none) => stop (.binding arg)
  | (name, some value) => do
    let e ← readValue juxtapose (String.ofList value)
    let x := String.ofList (Text.trim name)
    note "mctx" ("binding variable " ++ x ++ " = " ++ e.text)
    return s.bindVariable 0 x e

/-- Binds names as all the arguments say. -/
def bindArguments (juxtapose : Bool) : Store → List String → Progress Store
  | s, [] => return s
  | s, arg :: args => do
    let s ← bindArgument juxtapose s arg
    bindArguments juxtapose s args

/-! ## What the options ask for -/

/-- The domain that the options ask for. -/
def domainOf (gs : List Given) : Domain :=
  if isGiven gs .vector then .vector else if isGiven gs .interval then .interval else .real

/-- The limit of passes that the options ask for. -/
def limitOf (gs : List Given) : Except Failure Nat :=
  match valueOf gs .limit with
  | none => .ok Expr.defaultPassLimit
  | some text =>
    match Numeral.int? text with
    | none => .error (.limitText text)
    | some n => (passLimit (.num (.int n))).mapError .limit

/-- The derivative by the variable that the options name. -/
def differentiated (gs : List Given) (e : Expr) : Progress Expr :=
  match valueOf gs .derive with
  | none | some "" => return e
  | some x => do
    note "mathexpr" ("deriving " ++ e.text ++ " by " ++ x)
    done ((e.derive x).mapError .derivative)

/-- What the log says of repeated simplification. -/
def settledNote (limit : Nat) (s : Expr.Settled) : String :=
  if s.stable then "simplification stable after " ++ Nat.repr s.passes ++ " pass(es): " ++ s.tree.text
  else "simplification pass limit " ++ Nat.repr limit ++ " reached: " ++ s.tree.text

/-- The expression simplified as the options ask. -/
def simplified (gs : List Given) (limit : Nat) (e : Expr) : Progress Expr :=
  if isGiven gs .fixpoint then do
    let s := e.settle limit
    note "mast" (settledNote limit s)
    return s.tree
  else return if isGiven gs .simplify then e.simplify else e

/-- Whether a scope binds all the free names of an expression. -/
def allBound (s : Store) (scope : Nat) (e : Expr) : Bool :=
  e.freeVars.all fun x => (s.lookup scope x).isSome

/-- Shows the value of an expression whose names are all bound. -/
def showValue (d : Domain) (s : Store) (e : Expr) : Progress Unit :=
  if allBound s 0 e then do
    note "mathexpr" ("evaluating " ++ e.text ++ " as " ++ d.name ++ " in " ++ s.text 0)
    match evaluate (.domain d) (s.env Float 0) e with
    | .error x => stop (.evaluation x)
    | .ok v => print v.text
  else return ()

/-- Shows an expression as an algebraic form. -/
def showForm (e : Expr) : Progress Unit :=
  match Form.ofExpr Form.reduced e with
  | .error x => stop (.form x)
  | .ok f => print f.text

/-- Does what the options ask for with an expression and its bindings. -/
def perform (gs : List Given) (text : String) (args : List String) : Progress Unit := do
  let juxtapose := !isGiven gs .plainProducts
  let limit ← done (limitOf gs)
  let e ← readExpression juxtapose text
  let s ← bindArguments juxtapose Store.initial args
  let e ← differentiated gs e
  let e ← simplified gs limit e
  print e.text
  if isGiven gs .algebra then showForm e
  showValue (domainOf gs) s e

/-! ## A run -/

/-- How a run ends. -/
inductive Ending where
  | exit (code : Nat)
  | escaped (e : Failure)

/-- What a run writes to its two channels, and how it ends. -/
structure Report where
  out : String
  err : String
  ending : Ending

/-- Lines of text. -/
def lines (ls : List String) : String := String.join (ls.map (· ++ "\n"))

/-- The report on a computation. -/
def reportOn (debug : Bool) (p : Progress Unit) : Report :=
  let log := if debug then p.log else []
  match p.result with
  | .ok () => ⟨lines p.out, lines log, .exit 0⟩
  | .error e =>
    if e.escapes then ⟨lines p.out, lines log, .escaped e⟩
    else ⟨lines p.out, lines (log ++ ["mathexpr: " ++ e.label ++ ": " ++ e.message]), .exit 1⟩

/-- Runs the program on its arguments. -/
def run (argv : List String) : Report :=
  match readOptions argv with
  | .error e => ⟨"", lines ["mathexpr: " ++ e.message], .exit 2⟩
  | .ok (gs, args) =>
    if isGiven gs .help then ⟨lines [usage], "", .exit 0⟩
    else if isGiven gs .version then ⟨lines [version], "", .exit 0⟩
    else
      match args with
      | [] => ⟨"", lines [usage], .exit 2⟩
      | text :: rest => reportOn (isGiven gs .debug) (perform gs text rest)

end CommandLine

end ExprCalculus
