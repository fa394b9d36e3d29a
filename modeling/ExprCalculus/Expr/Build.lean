import ExprCalculus.Expr.Expansion
import ExprCalculus.Expr.Kinds
import ExprCalculus.Expr.Nested

/-!
# Building trees from parts of any kind

A part may be a tree, a plain number or a value of another kind.  A number is wrapped as a literal wherever
a tree is expected; every other kind is refused with a message that shows the part.  The checks of each
constructor run in a fixed order, which shows when several parts are wrong.
-/

namespace ExprCalculus

/-- A value that a tree may be built from. -/
inductive Part where
  | expr (e : Expr)
  | num (v : Num)
  | nothing
  | truth (b : Bool)
  | text (s : String)
  | list (parts : List Part)
  /-- fields, the names apart from the values -/
  | record (keys : List String) (values : List Part)

namespace Part

instance : Inhabited Part := ⟨.nothing⟩

/-- The fields of a record. -/
def fields : List String → List String → List String
  | k :: ks, v :: vs => (Text.quoted k ++ ": " ++ v) :: fields ks vs
  | _, _ => []

mutual

/-- How a part appears in messages. -/
def display : Part → String
  | .expr e => e.nested.display
  | .num v => v.text
  | .nothing => "None"
  | .truth b => if b then "True" else "False"
  | .text s => Text.quoted s
  | .list ps => "[" ++ ", ".intercalate (displayAll ps) ++ "]"
  | .record keys values => "\x7b" ++ ", ".intercalate (fields keys (displayAll values)) ++ "\x7d"

/-- How several parts appear. -/
def displayAll : List Part → List String
  | [] => []
  | p :: ps => display p :: displayAll ps

end

/-- The name of a part's kind. -/
def kindName : Part → String
  | .expr e => e.kindName
  | .num (.int _) => "int"
  | .num (.float _) => "float"
  | .nothing => "NoneType"
  | .truth _ => "bool"
  | .text _ => "str"
  | .list _ => "list"
  | .record .. => "dict"

/-- Whether a part counts as true: not empty and not zero. -/
def isTrue : Part → Bool
  | .expr _ => true
  | .num v => !v.isValue 0
  | .nothing => false
  | .truth b => b
  | .text s => s ≠ ""
  | .list ps => !ps.isEmpty
  | .record keys _ => !keys.isEmpty

end Part

/-- Why a tree cannot be built. -/
inductive BuildError where
  | notExpression (part : Part)
  | notNumber (part : Part)
  | variableName (part : Part)
  | functionName (part : Part)
  | parameters (parts : List Part)
  | notFunctions (inner outer : Part)
  | rootIndex (part : Part)
  | argumentCount (name : String) (expected given : Nat)
  /-- too few or too many operands for a kind with named operands -/
  | operandCount (kind : String) (names : List String) (given : Nat)
  | emptyVector
  | abstractKind (kind : String)
  | noSuchForm
  | operandKinds (symbol left right : String)
  | operandKind (symbol kind : String)
  | noAttribute (kind name : String)
  | formatArguments

namespace BuildError

/-- A list of quoted names, the last after `and`. -/
def nameList : List String → String
  | [] => ""
  | [a] => Text.quoted a
  | [a, b] => Text.quoted a ++ " and " ++ Text.quoted b
  | a :: as => Text.quoted a ++ ", " ++ nameList as

/-- The message for a wrong number of operands; the kind itself counts as one. -/
def operandCountMessage (kind : String) (names : List String) (given : Nat) : String :=
  if names.length < given then
    kind ++ ".__new__() takes " ++ Nat.repr (names.length + 1) ++ " positional arguments but "
      ++ Nat.repr (given + 1) ++ " were given"
  else
    let missing := names.drop given
    kind ++ ".__new__() missing " ++ Nat.repr missing.length ++ " required positional argument"
      ++ (if missing.length = 1 then "" else "s") ++ ": " ++ nameList missing

/-- The message of an error. -/
def message : BuildError → String
  | .notExpression p => "can not use " ++ p.display ++ " as an expression"
  | .notNumber p => "number value must be int or float, not " ++ p.display
  | .variableName p => "variable name must be a non-empty string, not " ++ p.display
  | .functionName p => "function name must be a non-empty string, not " ++ p.display
  | .parameters ps =>
    "function parameters must be variables, not " ++ Nested.enclose (Part.displayAll ps)
  | .notFunctions f g => "can only compose functions, not " ++ f.display ++ " and " ++ g.display
  | .rootIndex p => "root index must be a positive integer, not " ++ p.display
  | .argumentCount name expected given =>
    name ++ " () takes " ++ Nat.repr expected ++ " argument(s), " ++ Nat.repr given ++ " given"
  | .operandCount kind names given => operandCountMessage kind names given
  | .emptyVector => "vector literal needs at least one element"
  | .abstractKind kind => "can not instantiate abstract node " ++ kind
  | .noSuchForm => "'NoneType' object is not callable"
  | .operandKinds symbol left right =>
    "unsupported operand type(s) for " ++ symbol ++ ": " ++ Text.quoted left ++ " and "
      ++ Text.quoted right
  | .operandKind symbol kind =>
    "bad operand type for unary " ++ symbol ++ ": " ++ Text.quoted kind
  | .noAttribute kind name => Text.quoted kind ++ " object has no attribute " ++ Text.quoted name
  | .formatArguments => "not all arguments converted during string formatting"

/-- The name of the kind of error. -/
def label : BuildError → String
  | .emptyVector => "ValueError"
  | .noAttribute .. => "AttributeError"
  | _ => "TypeError"

end BuildError

namespace Build

/-- A tree or a number where a tree is expected. -/
def expression : Part → Except BuildError Expr
  | .expr e => .ok e
  | .num v => .ok (.number v)
  | p => .error (.notExpression p)

/-- Several trees. -/
def expressions : List Part → Except BuildError (List Expr)
  | [] => .ok []
  | p :: ps =>
    match expression p with
    | .error e => .error e
    | .ok a =>
      match expressions ps with
      | .error e => .error e
      | .ok as => .ok (a :: as)

/-- An argument of a default function. -/
def argument (p : Part) : Except BuildError Expr := (expression p).map Expr.inArgument

/-- A literal. -/
def number : Part → Except BuildError Expr
  | .num v => .ok (.number v)
  | p => .error (.notNumber p)

/-- A variable. -/
def var : Part → Except BuildError Expr
  | .text s => if s = "" then .error (.variableName (.text s)) else .ok (.var s)
  | p => .error (.variableName p)

/-- An expression marked as fixed. -/
def fixed (p : Part) : Except BuildError Expr := (expression p).map .fixed

/-- A vector. -/
def vector (ps : List Part) : Except BuildError Expr :=
  match expressions ps with
  | .error e => .error e
  | .ok [] => .error .emptyVector
  | .ok es => .ok (.vector es)

/-- A node with two operands. -/
def pair (make : Expr → Expr → Expr) (p q : Part) : Except BuildError Expr :=
  match expression p with
  | .error e => .error e
  | .ok a => (expression q).map (make a)

/-- An interval. -/
def interval (p q : Part) : Except BuildError Expr := pair .interval p q

/-- A binary operation. -/
def binary (op : BinOp) (p q : Part) : Except BuildError Expr := pair (.binary op) p q

/-- A negation. -/
def neg (p : Part) : Except BuildError Expr := (expression p).map .neg

/-- A default function of one argument. -/
def apply (fn : Fn) (args : List Part) : Except BuildError Expr :=
  match args with
  | [p] => (argument p).map (.apply fn)
  | ps =>
    if fn = .sqrt then .error (.operandCount fn.kindName ["arg"] ps.length)
    else .error (.argumentCount fn.name 1 ps.length)

/-- A logarithm of the second argument to the first. -/
def log (args : List Part) : Except BuildError Expr :=
  match args with
  | [p, q] => pair (fun a b => .log a.inArgument b.inArgument) p q
  | ps => .error (.argumentCount "log" 2 ps.length)

/-- A root. -/
def root (index : Part) (args : List Part) : Except BuildError Expr :=
  match args with
  | [p] =>
    match index with
    | .num (.int n) =>
      if 1 ≤ n then (argument p).map (.root n.toNat) else .error (.rootIndex index)
    | _ => .error (.rootIndex index)
  | ps => .error (.operandCount "Root" ["n", "arg"] (ps.length + 1))

/-- Texts among the parameters become variables. -/
def namedParameters : List Part → Except BuildError (List Part)
  | [] => .ok []
  | p :: ps =>
    let first : Except BuildError Part :=
      match p with
      | .text _ => (var p).map .expr
      | _ => .ok p
    match first with
    | .error e => .error e
    | .ok q => (namedParameters ps).map (q :: ·)

/-- A parameter: a variable or a fixed argument. -/
def parameter? : Part → Option Expr
  | .expr (.var x) => some (.var x)
  | .expr (.fixed e) => some (Expr.fixed e).inArgument
  | _ => none

/-- A custom function. -/
def custom (name : Part) (params : List Part) (body : Part) : Except BuildError Expr :=
  match namedParameters params with
  | .error e => .error e
  | .ok ps =>
    match name with
    | .text s =>
      if s = "" then .error (.functionName name)
      else
        match ps.mapM parameter? with
        | none => .error (.parameters ps)
        | some vs => (expression body).map (.custom s vs)
    | _ => .error (.functionName name)

/-- A composition. -/
def compose (inner outer : Part) : Except BuildError Expr :=
  match inner, outer with
  | .expr f, .expr g =>
    if f.isFunction && g.isFunction then .ok (.compose f g) else .error (.notFunctions inner outer)
  | _, _ => .error (.notFunctions inner outer)

/-- A call by name. -/
def call : Part → Except BuildError Expr
  | .text s => if s = "" then .error (.functionName (.text s)) else .ok (.call s)
  | p => .error (.functionName p)

/-- An operation written between two parts, at least one of them a tree.  The remainder of a text by a tree
is the text's own operation, which wants a place for the tree in the text. -/
def operate (op : BinOp) (p q : Part) : Except BuildError Expr :=
  match op, p, q with
  | .modulo, .text _, .expr _ => .error .formatArguments
  | _, _, _ => binary op p q

/-- A composition written as an operation. -/
def composeOperator (inner outer : Part) : Except BuildError Expr :=
  match inner with
  | .expr f =>
    if f.isFunction then compose inner outer
    else .error (.operandKinds "&" inner.kindName outer.kindName)
  | _ => .error (.operandKinds "&" inner.kindName outer.kindName)

/-- The negative of a part, which is a number again if the part counts as one. -/
def negate : Part → Except BuildError Part
  | .expr e => .ok (.expr (.neg e))
  | .num v => .ok (.num v.negate)
  | .truth b => .ok (.num (.int (if b then -1 else 0)))
  | p => .error (.operandKind "-" p.kindName)

/-- The expansion of a tree, where it has this one. -/
def expand (x : Expansion) (p : Part) : Except BuildError Expr :=
  match p with
  | .expr e =>
    match x.expand? e with
    | some a => .ok a
    | none => .error .noSuchForm
  | p => .error (.noAttribute p.kindName x.name)

/-- A node of a kind that is only a common ground for others: never built. -/
def abstractNode (kind : String) (args : List Part) : BuildError :=
  if kind = "BinaryOperator" then
    match args with
    | [p, q] =>
      match binary .plus p q with
      | .error e => e
      | .ok _ => .abstractKind kind
    | _ => .operandCount kind ["first", "second"] args.length
  else .abstractKind kind

end Build

end ExprCalculus
