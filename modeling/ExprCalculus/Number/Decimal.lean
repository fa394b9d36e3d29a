import ExprCalculus.Number.Basic

/-!
# Decimal text of numbers

A machine number is written with the fewest decimal digits that read back as itself, and of those
with the digits nearest to its value, a tie to the even digit.  `shortest` finds the digits by exact
integer arithmetic; `Layout` says how they are laid out.
-/

namespace ExprCalculus.Decimal

/-- A decimal number `digits · 10 ^ exponent`. -/
structure Digits where
  digits : Nat
  exponent : Int
  deriving DecidableEq, Repr

/-- The exponent of the leading decimal digit of a positive quotient. -/
def leadingExponent (num den : Nat) : Int :=
  if den ≤ num then (Nat.toDigits 10 (num / den)).length - 1
  else
    let n := (Nat.toDigits 10 (den / num)).length
    if den ≤ num * tenPow (n - 1) then 1 - (n : Int) else -n

/-- A quotient divided by a power of ten, as numerator and denominator. -/
def scaleDown (num den : Nat) (k : Int) : Nat × Nat :=
  if 0 ≤ k then (num, den * tenPow k.toNat) else (num * tenPow (-k).toNat, den)

/-- The multiple of `10 ^ k` nearest to `value / den` among its two neighbours that lie between `low / den`
and `high / den`, the ends included if `closed`. -/
def onGrid (value low high den : Nat) (closed : Bool) (k : Int) : Option Nat :=
  let (v, d) := scaleDown value den k
  let lo := (scaleDown low den k).1
  let hi := (scaleDown high den k).1
  let below := v / d
  let inside (c : Nat) : Bool := if closed then lo ≤ c * d && c * d ≤ hi else lo < c * d && c * d < hi
  match inside below, inside (below + 1) with
  | true, true =>
    let rest := v % d
    if 2 * rest < d ∨ (2 * rest = d ∧ below % 2 = 0) then some below else some (below + 1)
  | true, false => some below
  | false, true => some (below + 1)
  | false, false => none

/-- The digits without zeros at the end. -/
def dropZeros : Nat → Digits → Digits
  | 0, d => d
  | fuel + 1, d =>
    if d.digits ≠ 0 ∧ d.digits % 10 = 0 then dropZeros fuel ⟨d.digits / 10, d.exponent + 1⟩ else d

/-- The fewest digits that read back as the positive number `mantissa · 2 ^ exponent`.  The numbers that
round to it lie within half a unit of its last place, or within a quarter below a power of two.
Seventeen digits always suffice. -/
def shortest (mantissa : Nat) (exponent : Int) : Digits :=
  let value := 4 * mantissa
  let low := if mantissa = twoPow 52 ∧ -1074 < exponent then value - 1 else value - 2
  let high := value + 2
  let scale := twoPow (exponent - 2).toNat
  let den := twoPow (2 - exponent).toNat
  let lead := leadingExponent (value * scale) den
  let onGridOf (n : Nat) : Option Digits :=
    (onGrid (value * scale) (low * scale) (high * scale) den (mantissa % 2 = 0) (lead - n)).map
      fun c => dropZeros 20 ⟨c, lead - n⟩
  ((List.range 17).findSome? onGridOf).getD ⟨value * scale / den, 0⟩

/-- How a machine number is laid out. -/
structure Layout where
  /-- the least exponent of the leading digit that is written without an exponent -/
  lowest : Int
  /-- the first exponent of the leading digit that is written with an exponent again -/
  limit : Int
  /-- the least number of digits of a written exponent -/
  exponentDigits : Nat

/-- Plain notation from a ten-thousandth to below ten to the sixteenth; two exponent digits. -/
def layout : Layout := ⟨-4, 16, 2⟩

/-- Text of a written exponent: a sign and at least the given number of digits. -/
def exponentText (width : Nat) (e : Int) : String :=
  let ds := Nat.repr e.natAbs
  "e" ++ (if e < 0 then "-" else "+") ++ String.ofList (List.replicate (width - ds.length) '0') ++ ds

/-- Text of a positive decimal number. -/
def Digits.text (l : Layout) (d : Digits) : String :=
  let ds := Nat.toDigits 10 d.digits
  let lead := d.exponent + ds.length - 1
  if lead < l.lowest ∨ l.limit ≤ lead then
    let tail := if ds.length = 1 then [] else '.' :: ds.drop 1
    String.ofList (ds.take 1 ++ tail) ++ exponentText l.exponentDigits lead
  else if lead < 0 then
    "0." ++ String.ofList (List.replicate (-lead - 1).toNat '0' ++ ds)
  else
    let whole := ds.take (lead.toNat + 1) ++ List.replicate d.exponent.toNat '0'
    let fraction := ds.drop (lead.toNat + 1)
    String.ofList (whole ++ '.' :: (if fraction.isEmpty then ['0'] else fraction))

/-- Text of a machine number. -/
def floatText (x : Float) : String :=
  match Dyadic.ofFloat? x with
  | none => if x.isNaN then "nan" else if x < 0 then "-inf" else "inf"
  | some d =>
    let size := if d.mantissa = 0 then "0.0" else (shortest d.mantissa d.exponent).text layout
    if d.negative then "-" ++ size else size

/-- Text of an integer. -/
def intText (n : Int) : String :=
  if n < 0 then "-" ++ Nat.repr n.natAbs else Nat.repr n.natAbs

end ExprCalculus.Decimal

namespace ExprCalculus

/-- Text of a literal. -/
def Num.text : Num → String
  | .int n => Decimal.intText n
  | .float x => Decimal.floatText x

end ExprCalculus
