import ExprCalculus.Number.Decimal
import ExprCalculus.Text.Character

/-!
# Reading numerals

Integers and decimal fractions written with the decimal digits of any script.  A fraction is rounded
once, from its exact value, to the nearest machine number.
-/

namespace ExprCalculus.Numeral

open Text

/-- The number written by decimal digits. -/
def natOfDigits (cs : List Char) : Nat :=
  cs.foldl (fun n c => 10 * n + (digitValue? c).getD 0) 0

/-- The machine number nearest to `mantissa · 10 ^ exponent`.  Exponents far out of range are settled
without computing the power. -/
def floatOfDecimal (mantissa : Nat) (exponent : Int) : Float :=
  if mantissa = 0 then 0.0
  else
    let lead := exponent + (Nat.toDigits 10 mantissa).length
    if 400 < lead then infinity
    else if lead < -400 then 0.0
    else if 0 ≤ exponent then Dyadic.nearest (mantissa * tenPow exponent.toNat) 1
    else Dyadic.nearest mantissa (tenPow (-exponent).toNat)

/-- Splits a sign off. -/
def splitSign : List Char → Bool × List Char
  | '-' :: cs => (true, cs)
  | '+' :: cs => (false, cs)
  | cs => (false, cs)

/-- The unsigned numeral split into whole part, fraction and exponent; nothing is left over. -/
def splitDecimal (cs : List Char) : Option (List Char × List Char × Int) :=
  let whole := cs.takeWhile isDigit
  let (fraction, rest) :=
    match cs.dropWhile isDigit with
    | '.' :: r => (r.takeWhile isDigit, r.dropWhile isDigit)
    | r => ([], r)
  if whole.isEmpty && fraction.isEmpty then none
  else
    match rest with
    | [] => some (whole, fraction, 0)
    | c :: r =>
      if c = 'e' ∨ c = 'E' then
        let (negative, ds) := splitSign r
        if ds.isEmpty || !ds.all isDigit then none
        else some (whole, fraction, if negative then -(natOfDigits ds : Int) else natOfDigits ds)
      else none

/-- The value of an unsigned decimal numeral. -/
def unsignedFloat? (cs : List Char) : Option Float :=
  match splitDecimal cs with
  | none => none
  | some (whole, fraction, e) =>
    some (floatOfDecimal (natOfDigits (whole ++ fraction)) (e - fraction.length))

/-- Removes single underscores between digits; none if one stands elsewhere. -/
def dropUnderscores : List Char → Option (List Char)
  | [] => some []
  | '_' :: _ => none
  | [c] => some [c]
  | c :: '_' :: d :: cs =>
    if isDigit c && isDigit d then (dropUnderscores (d :: cs)).map (c :: ·) else none
  | c :: cs => (dropUnderscores cs).map (c :: ·)

/-- Reads an integer: white space around it, a sign, digits with single underscores between them. -/
def int? (s : String) : Option Int :=
  let (negative, cs) := splitSign (trim s.toList)
  match dropUnderscores cs with
  | none => none
  | some ds =>
    if ds.isEmpty || !ds.all isDigit then none
    else some (if negative then -(natOfDigits ds : Int) else natOfDigits ds)

/-- Reads a machine number: white space around it, a sign, then a decimal numeral or the name of an
infinity or of what is not a number, in either case of letters. -/
def float? (s : String) : Option Float :=
  let (negative, cs) := splitSign (trim s.toList)
  let name := cs.map Char.toLower
  let size :=
    if name = "inf".toList ∨ name = "infinity".toList then some infinity
    else if name = "nan".toList then some undefinedReal
    else (dropUnderscores cs).bind unsignedFloat?
  size.map fun x => if negative then -x else x

end ExprCalculus.Numeral
