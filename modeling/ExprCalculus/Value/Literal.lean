import ExprCalculus.Value.Real

/-!
# Arithmetic on literals

The real operations on numbers that keep their kind: integers of any size next to machine numbers.  An
integer that meets a machine number is rounded to one, which fails if it is out of range.
-/

namespace ExprCalculus.Num

/-- The literal as a machine number. -/
def asFloat (v : Num) : Except (Fault Float) Float :=
  match v.toFloat? with
  | some x => .ok x
  | none => .error .tooLarge

/-- An operation on two literals as machine numbers. -/
def onFloats {β : Type} (f : Float → Float → β) (a b : Num) : Except (Fault Float) β :=
  match a.asFloat with
  | .error e => .error e
  | .ok x =>
    match b.asFloat with
    | .error e => .error e
    | .ok y => .ok (f x y)

/-- An operation that yields an integer for integers and otherwise a machine number. -/
def arithmetic (ofInts : Int → Int → Int) (ofFloats : Float → Float → Float) (a b : Num) :
    Except (Fault Float) Num :=
  match a, b with
  | .int m, .int n => .ok (.int (ofInts m n))
  | _, _ => onFloats (fun x y => .float (ofFloats x y)) a b

/-- The machine number nearest to a quotient of integers.  A quotient of zero has the sign of the divisor. -/
def intQuotient (m n : Int) : Except (Fault Float) Float :=
  let x := Dyadic.nearest m.natAbs n.natAbs
  if x.isInf then .error .quotientTooLarge else .ok (if (m < 0) = (n < 0) then x else -x)

/-- Quotient as a machine number: an infinity or not a number where the divisor is zero. -/
def realQuotient (a b : Num) : Except (Fault Float) Float :=
  match a, b with
  | .int m, .int n => if n = 0 then onFloats (· / ·) a b else intQuotient m n
  | _, _ => onFloats (· / ·) a b

/-- Whether the literal is an odd integer. -/
def isOdd : Num → Bool
  | .int n => n % 2 = 1
  | .float x => Binary64.isOdd x

/-- Power as a machine number, infinite where it is out of range. -/
def realPower (a b : Num) : Except (Fault Float) Float :=
  match a.toFloat?, b.toFloat? with
  | some x, some y => (Binary64.roundedPower b.isOdd x y).result
  | _, none => if a.isNegative then .error .tooLarge else .ok infinity
  | none, some y =>
    if a.isNegative && y.isFinite && (Binary64.integer? y).isNone then .ok undefinedReal
    else .ok (if a.isNegative && b.isOdd then -infinity else infinity)

/-- Remainder with the sign of the divisor; not a number where there is none. -/
def realModulo (a b : Num) : Except (Fault Float) Num :=
  if b.isValue 0 then .ok (.float undefinedReal)
  else
    match a.asFloat with
    | .error e => .error e
    | .ok x =>
      if x.isFinite then arithmetic Int.fmod Binary64.modulo a b else .ok (.float undefinedReal)

/-- The logarithm of a positive integer of any size, by way of its size in bits. -/
def logOfNat (n : Nat) : Float :=
  let bits := n.log2 + 1
  let m := Dyadic.nearest n (twoPow bits)
  let (m, bits) := if m == 1 then (0.5, bits + 1) else (m, bits)
  Float.log m + Float.log 2 * ((intToFloat? bits).getD infinity)

/-- A default function of a literal.  That of an integer out of range is taken to be infinite, the logarithm
apart. -/
def realFunction (fn : Fn) (v : Num) : Float :=
  match v, v.toFloat? with
  | _, some x => Binary64.function fn x
  | .int n, none =>
    if fn = .ln then (if 0 < n then logOfNat n.toNat else undefinedReal) else infinity
  | .float _, none => undefinedReal

/-- Whether the literal is not a number. -/
def isUndefined : Num → Bool
  | .int _ => false
  | .float x => x.isNaN

/-- Whether one literal is at most another, compared by exact value. -/
def atMost (a b : Num) : Bool :=
  match a.exactValue?, b.exactValue? with
  | some x, some y =>
    let e := min x.exponent y.exponent
    x.scaled e ≤ y.scaled e
  | none, none =>
    match a, b with
    | .float x, .float y => x ≤ y
    | _, _ => false
  | none, some _ => !a.isUndefined && a.isNegative
  | some _, none => !b.isUndefined && !b.isNegative

end ExprCalculus.Num
