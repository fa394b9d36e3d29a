import ExprCalculus.Number.Binary64

/-!
# Elementary functions in fixed point

A real number is given as a whole number of units `2 ^ -bits`.  The functions below reduce their argument to
a small one and sum a power series until its terms vanish; what they return is off by a few units, more for
large results.
-/

namespace ExprCalculus.FixedPoint

/-! ## Arithmetic -/

/-- The number one. -/
def one (bits : Nat) : Int := twoPow bits

/-- A quotient of integers. -/
def ofQuotient (bits : Nat) (num : Int) (den : Nat) : Int := Int.tdiv (num * twoPow bits) den

/-- Product. -/
def mul (bits : Nat) (x y : Int) : Int := Int.tdiv (x * y) (twoPow bits)

/-- Quotient. -/
def div (bits : Nat) (x y : Int) : Int := Int.tdiv (x * twoPow bits) y

/-- A number in units of another size. -/
def rescale (old new : Nat) (x : Int) : Int :=
  if old ≤ new then x * twoPow (new - old) else Int.tdiv x (twoPow (old - new))

/-- The machine number nearest to a number. -/
def toFloat (bits : Nat) (x : Int) : Float :=
  let size := Dyadic.nearest x.natAbs (twoPow bits)
  if x < 0 then -size else size

/-! ## Roots -/

/-- Newton's steps towards the integer root, from above. -/
def rootSteps (n k : Nat) : Nat → Nat → Nat
  | 0, guess => guess
  | fuel + 1, guess =>
    let next := ((k - 1) * guess + n / Nat.pow guess (k - 1)) / k
    if next < guess then rootSteps n k fuel next else guess

/-- The greatest number whose power to `k` is not above `n`. -/
def natRoot (n k : Nat) : Nat :=
  if n = 0 ∨ k = 0 then 0
  else if k = 1 then n
  else if n.log2 < k then 1
  else rootSteps n k (n.log2 + 2 * k + 64) (twoPow (n.log2 / k + 1))

/-- Square root of a number that is not negative. -/
def sqrt (bits : Nat) (x : Int) : Int := natRoot (x.toNat * twoPow bits) 2

/-! ## Series -/

/-- Adds the terms of a series in which each term is the one before times `ratio` and over a divisor that
depends on its place. -/
def sumTerms (bits : Nat) (ratio : Int) (divisor : Nat → Nat) : Nat → Nat → Int → Int → Int
  | 0, _, _, total => total
  | fuel + 1, place, term, total =>
    let next := Int.tdiv (mul bits term ratio) (divisor place)
    if next = 0 then total else sumTerms bits ratio divisor fuel (place + 1) next (total + next)

/-- Adds the terms `power / (2 i + 1)` of a series in which each power is the one before times `ratio`. -/
def sumOdd (bits : Nat) (ratio : Int) : Nat → Nat → Int → Int → Int
  | 0, _, _, total => total
  | fuel + 1, place, power, total =>
    let next := mul bits power ratio
    if next = 0 then total
    else sumOdd bits ratio fuel (place + 1) next (total + Int.tdiv next (2 * place + 1))

/-- The inverse hyperbolic tangent of a small number. -/
def artanhSmall (bits : Nat) (x : Int) : Int := sumOdd bits (mul bits x x) bits 1 x x

/-- The inverse tangent of a small number. -/
def arctanSmall (bits : Nat) (x : Int) : Int := sumOdd bits (-(mul bits x x)) bits 1 x x

/-! ## Constants -/

/-- The circle constant, from the inverse tangents of a fifth and of one over 239. -/
def pi (bits : Nat) : Int :=
  let fine := bits + 16
  let a := arctanSmall fine (ofQuotient fine 1 5)
  let b := arctanSmall fine (ofQuotient fine 1 239)
  rescale fine bits (16 * a - 4 * b)

/-- The natural logarithm of two. -/
def lnTwo (bits : Nat) : Int :=
  let fine := bits + 16
  rescale fine bits (2 * artanhSmall fine (ofQuotient fine 1 3))

/-! ## Exponential and logarithm -/

/-- A number squared several times. -/
def squared (bits : Nat) : Nat → Int → Int
  | 0, x => x
  | n + 1, x => squared bits n (mul bits x x)

/-- Exponential: that of a small part of the argument, squared as often as the argument was halved. -/
def exp (bits : Nat) (x : Int) : Int :=
  let halvings := x.natAbs.log2 + 8 - bits
  let fine := bits + 2 * halvings + 32
  let small := rescale (bits + halvings) fine x
  let series := sumTerms fine small (fun n => n) fine 1 (one fine) (one fine)
  rescale fine bits (squared fine halvings series)

/-- Natural logarithm of a positive number: that of a number between one and two, and a multiple of the
logarithm of two. -/
def ln (bits : Nat) (x : Int) : Int :=
  let fine := bits + 32
  let twos : Int := x.natAbs.log2 - bits
  let between := x * twoPow 32
  let between := if 0 ≤ twos then Int.tdiv between (twoPow twos.toNat) else between * twoPow (-twos).toNat
  let y := div fine (between - one fine) (between + one fine)
  rescale fine bits (2 * artanhSmall fine y + twos * lnTwo fine)

/-! ## Trigonometric functions -/

/-- Sine and cosine: those of the distance to the nearest multiple of a right angle. -/
def sinCos (bits : Nat) (x : Int) : Int × Int :=
  let fine := bits + (x.natAbs.log2 - bits) + 32
  let x := rescale bits fine x
  let right := Int.tdiv (pi fine) 2
  let turns := Int.fdiv (2 * x + right) (2 * right)
  let r := x - turns * right
  let square := -(mul fine r r)
  let sine := sumTerms fine square (fun n => 2 * n * (2 * n + 1)) fine 1 r r
  let cosine := sumTerms fine square (fun n => 2 * n * (2 * n - 1)) fine 1 (one fine) (one fine)
  let (s, c) :=
    match (Int.fmod turns 4).toNat with
    | 0 => (sine, cosine)
    | 1 => (cosine, -sine)
    | 2 => (-sine, -cosine)
    | _ => (-cosine, sine)
  (rescale fine bits s, rescale fine bits c)

/-- Halves an angle given by its tangent, several times. -/
def halfAngle (bits : Nat) : Nat → Int → Int
  | 0, x => x
  | n + 1, x => halfAngle bits n (div bits x (one bits + sqrt bits (one bits + mul bits x x)))

/-- Inverse tangent. -/
def arctan (bits : Nat) (x : Int) : Int :=
  let fine := bits + 32
  let y := rescale bits fine x
  let ofSmall (z : Int) : Int := 16 * arctanSmall fine (halfAngle fine 4 z)
  let angle :=
    if y.natAbs ≤ twoPow fine then ofSmall y
    else
      let right := Int.tdiv (pi fine) 2
      (if y < 0 then -right else right) - ofSmall (div fine (one fine) y)
  rescale fine bits angle

/-- The angle of a point of the plane, above minus a half turn and up to a half turn. -/
def angle (bits : Nat) (x y : Int) : Int :=
  if y = 0 then (if x < 0 then pi bits else 0)
  else if x = 0 then (if y < 0 then -(Int.tdiv (pi bits) 2) else Int.tdiv (pi bits) 2)
  else
    let a := arctan bits (div bits y x)
    if 0 < x then a else if y < 0 then a - pi bits else a + pi bits

/-- Inverse sine of a number between minus one and one. -/
def arcsin (bits : Nat) (x : Int) : Int :=
  angle bits (sqrt bits (one bits - mul bits x x)) x

end ExprCalculus.FixedPoint
