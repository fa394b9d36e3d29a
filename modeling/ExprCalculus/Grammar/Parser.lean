import ExprCalculus.Expr.Display
import ExprCalculus.Grammar.Token
import ExprCalculus.Number.Numeral
import ExprCalculus.Text.Quoted

/-!
# Reading expressions

Sums bind loosest, then products, then signs, then powers, whose exponent may carry a sign of its own.
Two operands side by side are a product if juxtaposition is on.  A name before `()` is a call, a bracket
holds a vector or, with two dots, an interval, and a negative numeral alone in parentheses is a literal.

The parser goes down one token at a time and never back.  It stops at the first token that cannot
continue; the number of arguments of a function and the index of a root are judged when the closing
parenthesis has been read.  Each function passes a smaller allowance down; `allowance` is enough for
every list of tokens.
-/

namespace ExprCalculus.Grammar

/-- Why a text is not an expression. -/
inductive ParseError where
  /-- a token that cannot continue the expression -/
  | unexpected (token : Token)
  | rootIndex (index : Expr)
  | argumentCount (name : String) (count : Nat)
  /-- the allowance ran out; `allowance` is chosen so that it does not -/
  | exhausted

/-- What a step of the parser gives: a tree and the tokens that follow it. -/
abbrev Parsed (α : Type) := Except ParseError (α × List Token)

/-- The kind of the next token. -/
def nextKind : List Token → Kind
  | [] => .finish
  | t :: _ => t.kind

/-- The error at the next token. -/
def unexpected : List Token → ParseError
  | [] => .unexpected ⟨.finish, [], 0⟩
  | t :: _ => .unexpected t

/-! ## Literals, names and functions -/

/-- The value of a numeral: an integer unless it has a point or an exponent. -/
def numeralValue (text : List Char) : Num :=
  if text.contains '.' || (scanExponent (text.dropWhile Text.isDigit)).1 != [] then
    .float ((Numeral.unsignedFloat? text).getD 0.0)
  else .int (Numeral.natOfDigits text)

/-- The constants that have a name. -/
def constant? (name : List Char) : Option Num :=
  if name = ['e'] then some .euler
  else if name = ['p', 'i'] then some .pi
  else none

/-- The function of one argument that a name stands for. -/
def namedFn? (name : List Char) : Option Fn :=
  match String.ofList name with
  | "exp" => some .exp
  | "ln" => some .ln
  | "sqrt" => some .sqrt
  | "sin" => some .sin
  | "cos" => some .cos
  | "tan" => some .tan
  | "arcsin" | "asin" => some .arcsin
  | "arccos" | "acos" => some .arccos
  | "arctan" | "atan" => some .arctan
  | "abs" => some .abs
  | "ceil" => some .ceil
  | "floor" => some .floor
  | "sgn" => some .sgn
  | _ => none

/-- The index of a root, if the tree is a positive integer literal. -/
def rootIndex? : Expr → Option Nat
  | .number (.int n) => if 1 ≤ n then some n.toNat else none
  | _ => none

/-- A function name applied to its arguments. -/
def applyNamed (name : List Char) (args : List Expr) : Except ParseError Expr :=
  let wrongCount := ParseError.argumentCount (String.ofList name) args.length
  if name = "log".toList then
    match args with
    | [a] => .ok (.log (.int 10) a)
    | [b, a] => .ok (.log b a)
    | _ => .error wrongCount
  else if name = "nrt".toList then
    match args with
    | [n, a] =>
      match rootIndex? n with
      | some k => .ok (.root k a)
      | none => .error (.rootIndex n)
    | _ => .error wrongCount
  else
    match namedFn? name, args with
    | some fn, [a] => .ok (.apply fn a)
    | _, _ => .error wrongCount

/-- What a name stands for: a constant, a call if `()` follows, otherwise a variable. -/
def nameExpr (name : List Char) (rest : List Token) : Expr × List Token :=
  match constant? name with
  | some v => (.number v, rest)
  | none =>
    match rest with
    | ⟨.parenL, _, _⟩ :: ⟨.parenR, _, _⟩ :: after => (.call (String.ofList name), after)
    | _ => (.var (String.ofList name), rest)

/-! ## The grammar -/

/-- Whether a token begins an operand that may stand beside another one. -/
def startsOperand : Kind → Bool
  | .number | .name | .function | .parenL => true
  | _ => false

/-- The operation of a sum. -/
def sumOp? : Kind → Option BinOp
  | .plus => some .plus
  | .minus => some .minus
  | _ => none

/-- The operation of a product. -/
def productOp? : Kind → Option BinOp
  | .times => some .times
  | .divide => some .divide
  | .modulo => some .modulo
  | _ => none

mutual

/-- A sum. -/
def sum (juxtapose : Bool) : Nat → List Token → Parsed Expr
  | 0, _ => .error .exhausted
  | fuel + 1, ts =>
    match product juxtapose fuel ts with
    | .error e => .error e
    | .ok (a, rest) => sumTail juxtapose fuel a rest

/-- The rest of a sum whose first terms are read. -/
def sumTail (juxtapose : Bool) : Nat → Expr → List Token → Parsed Expr
  | 0, _, _ => .error .exhausted
  | fuel + 1, a, ts =>
    match sumOp? (nextKind ts) with
    | none => .ok (a, ts)
    | some op =>
      match product juxtapose fuel ts.tail with
      | .error e => .error e
      | .ok (b, rest) => sumTail juxtapose fuel (.binary op a b) rest

/-- A product. -/
def product (juxtapose : Bool) : Nat → List Token → Parsed Expr
  | 0, _ => .error .exhausted
  | fuel + 1, ts =>
    match unary juxtapose fuel ts with
    | .error e => .error e
    | .ok (a, rest) => productTail juxtapose fuel a rest

/-- The rest of a product whose first factors are read. -/
def productTail (juxtapose : Bool) : Nat → Expr → List Token → Parsed Expr
  | 0, _, _ => .error .exhausted
  | fuel + 1, a, ts =>
    match productOp? (nextKind ts) with
    | some op =>
      match unary juxtapose fuel ts.tail with
      | .error e => .error e
      | .ok (b, rest) => productTail juxtapose fuel (.binary op a b) rest
    | none =>
      if juxtapose && startsOperand (nextKind ts) then
        match unary juxtapose fuel ts with
        | .error e => .error e
        | .ok (b, rest) => productTail juxtapose fuel (.times a b) rest
      else .ok (a, ts)

/-- An operand with its signs. -/
def unary (juxtapose : Bool) : Nat → List Token → Parsed Expr
  | 0, _ => .error .exhausted
  | fuel + 1, ts =>
    match ts with
    | ⟨.minus, _, _⟩ :: rest =>
      match unary juxtapose fuel rest with
      | .error e => .error e
      | .ok (a, rest) => .ok (.neg a, rest)
    | ⟨.plus, _, _⟩ :: rest => unary juxtapose fuel rest
    | _ => power juxtapose fuel ts

/-- A power, or its base alone. -/
def power (juxtapose : Bool) : Nat → List Token → Parsed Expr
  | 0, _ => .error .exhausted
  | fuel + 1, ts =>
    match primary juxtapose fuel ts with
    | .error e => .error e
    | .ok (a, ⟨.power, _, _⟩ :: rest) =>
      match unary juxtapose fuel rest with
      | .error e => .error e
      | .ok (b, rest) => .ok (.power a b, rest)
    | .ok (a, rest) => .ok (a, rest)

/-- An operand without signs. -/
def primary (juxtapose : Bool) : Nat → List Token → Parsed Expr
  | 0, _ => .error .exhausted
  | fuel + 1, ts =>
    match ts with
    | ⟨.number, text, _⟩ :: rest => .ok (.number (numeralValue text), rest)
    | ⟨.name, text, _⟩ :: rest => .ok (nameExpr text rest)
    | ⟨.function, text, _⟩ :: rest =>
      match rest with
      | ⟨.parenL, _, _⟩ :: rest =>
        match list juxtapose fuel rest with
        | .error e => .error e
        | .ok (args, ⟨.parenR, _, _⟩ :: rest) =>
          match applyNamed text args with
          | .error e => .error e
          | .ok a => .ok (a, rest)
        | .ok (_, rest) => .error (unexpected rest)
      | _ => .error (unexpected rest)
    | ⟨.parenL, _, _⟩ :: ⟨.minus, _, _⟩ :: ⟨.number, text, _⟩ :: ⟨.parenR, _, _⟩ :: rest =>
      .ok (.number (numeralValue text).negate, rest)
    | ⟨.parenL, _, _⟩ :: rest =>
      match sum juxtapose fuel rest with
      | .error e => .error e
      | .ok (a, ⟨.parenR, _, _⟩ :: rest) => .ok (a, rest)
      | .ok (_, rest) => .error (unexpected rest)
    | ⟨.bracketL, _, _⟩ :: rest => brackets juxtapose fuel rest
    | _ => .error (unexpected ts)

/-- The inside of brackets and the closing one: an interval or a vector. -/
def brackets (juxtapose : Bool) : Nat → List Token → Parsed Expr
  | 0, _ => .error .exhausted
  | fuel + 1, ts =>
    match sum juxtapose fuel ts with
    | .error e => .error e
    | .ok (a, ⟨.dots, _, _⟩ :: rest) =>
      match sum juxtapose fuel rest with
      | .error e => .error e
      | .ok (b, ⟨.bracketR, _, _⟩ :: rest) => .ok (.interval a b, rest)
      | .ok (_, rest) => .error (unexpected rest)
    | .ok (a, rest) =>
      match listTail juxtapose fuel rest with
      | .error e => .error e
      | .ok (es, ⟨.bracketR, _, _⟩ :: rest) => .ok (.vector (a :: es), rest)
      | .ok (_, rest) => .error (unexpected rest)

/-- Expressions separated by commas, at least one. -/
def list (juxtapose : Bool) : Nat → List Token → Parsed (List Expr)
  | 0, _ => .error .exhausted
  | fuel + 1, ts =>
    match sum juxtapose fuel ts with
    | .error e => .error e
    | .ok (a, rest) =>
      match listTail juxtapose fuel rest with
      | .error e => .error e
      | .ok (es, rest) => .ok (a :: es, rest)

/-- Further expressions, a comma before each. -/
def listTail (juxtapose : Bool) : Nat → List Token → Parsed (List Expr)
  | 0, _ => .error .exhausted
  | fuel + 1, ts =>
    match ts with
    | ⟨.comma, _, _⟩ :: rest =>
      match sum juxtapose fuel rest with
      | .error e => .error e
      | .ok (a, rest) =>
        match listTail juxtapose fuel rest with
        | .error e => .error e
        | .ok (es, rest) => .ok (a :: es, rest)
    | _ => .ok ([], ts)

end

/-- An allowance that the parser never uses up on a list of tokens. -/
def allowance (ts : List Token) : Nat := 8 * ts.length + 8

/-- Reads a whole list of tokens. -/
def parseTokens (juxtapose : Bool) (ts : List Token) : Except ParseError Expr :=
  match sum juxtapose (allowance ts) ts with
  | .error e => .error e
  | .ok (a, rest) =>
    match nextKind rest with
    | .finish => .ok a
    | _ => .error (unexpected rest)

/-- Reads a text as an expression. -/
def parse (juxtapose : Bool) (text : String) : Except ParseError Expr :=
  parseTokens juxtapose (tokens text.toList)

namespace ParseError

/-- The position, counted from one, of an error that has one. -/
def offset? : ParseError → Option Nat
  | .unexpected t => some (t.pos + 1)
  | _ => none

/-- The message of an error in a text; at most sixteen characters of the text are shown. -/
def message (text : String) : ParseError → String
  | .unexpected t =>
    match t.kind with
    | .finish => "unexpected end of input"
    | .bad => "invalid token " ++ Text.quoted (String.ofList t.text)
    | _ => "invalid syntax " ++ Text.quoted (String.ofList ((text.toList.drop t.pos).take 16))
  | .rootIndex n => "nrt() root index must be a positive integer literal, not " ++ n.text
  | .argumentCount name count => name ++ "() does not take " ++ Nat.repr count ++ " arguments"
  | .exhausted => "the expression is nested too deeply"

end ParseError

end ExprCalculus.Grammar
