/-
  EmbeddedExpr.Number.Binary64
  ────────────────────────────
  **FLOATING-POINT NUMBERS OF 64 BITS.**

  A finite number is `mantissa · 2 ^ exponent` with a mantissa below 2⁵³ and an exponent from
  −1074 on; the mantissa is at least 2⁵² unless the exponent is the least one.  `ofRatio`
  rounds a quotient to the nearest such number, a tie to the even mantissa; `add` and `mul`
  round exact results in the same way.  `shortest` finds the shortest decimal that reads back
  as the number.
-/
namespace EmbeddedExpr

/-- A floating-point number of 64 bits. -/
inductive Binary64 where
  | finite (negative : Bool) (mantissa : Nat) (exponent : Int)
  | infinite (negative : Bool)
  /-- No number.  A payload tells two of them apart. -/
  | nan (payload : Nat)
  deriving DecidableEq, Repr

namespace Binary64

/-! ## §1. Rounding. -/

/-- The least exponent. -/
def leastExponent : Int := -1074

/-- The largest exponent. -/
def largestExponent : Int := 971

/-- `a · 2 ^ k / b` as a fraction of natural numbers. -/
def scale (a b : Nat) (k : Int) : Nat × Nat :=
  if k < 0 then (a, b * Nat.pow 2 k.natAbs) else (a * Nat.pow 2 k.toNat, b)

/-- The quotient of two numbers, rounded to the nearest; a tie goes to the even one. -/
def roundDiv (a b : Nat) : Nat :=
  let q := a / b
  let r := a % b
  if 2 * r < b then q
  else if b < 2 * r then q + 1
  else if q % 2 = 0 then q else q + 1

/-- The exponent of the greatest power of two that is at most `a / b`. -/
def floorLog (a b : Nat) : Int :=
  let k : Int := (a.log2 : Int) - b.log2
  let (x, y) := scale a b (-k)
  if x < y then k - 1 else k

/-- The number nearest to `a / b`. -/
def ofRatio (negative : Bool) (a b : Nat) : Binary64 :=
  if a = 0 then .finite negative 0 leastExponent
  else
    let exponent := max (floorLog a b - 52) leastExponent
    let (x, y) := scale a b (-exponent)
    let mantissa := roundDiv x y
    let (mantissa, exponent) :=
      if mantissa = Nat.pow 2 53 then (Nat.pow 2 52, exponent + 1) else (mantissa, exponent)
    if largestExponent < exponent then .infinite negative
    else .finite negative mantissa exponent

/-- The number nearest to `coefficient · 10 ^ exponent`.  Exponents far outside the range need
no computation. -/
def ofDecimal (negative : Bool) (coefficient : Nat) (exponent : Int) : Binary64 :=
  if coefficient = 0 then .finite negative 0 leastExponent
  else
    let width : Int := (Nat.toDigits 10 coefficient).length
    if 400 < exponent + width then .infinite negative
    else if exponent + width < -400 then .finite negative 0 leastExponent
    else if exponent < 0 then ofRatio negative coefficient (Nat.pow 10 exponent.natAbs)
    else ofRatio negative (coefficient * Nat.pow 10 exponent.toNat) 1

/-! ## §2. Values. -/

/-- The number is zero, of either sign. -/
def isZero : Binary64 → Bool
  | .finite _ m _ => m = 0
  | _ => false

/-- The whole number that a number is. -/
def toInt? : Binary64 → Option Int
  | .finite negative m e =>
    let whole : Option Nat :=
      if 0 ≤ e then some (m * Nat.pow 2 e.toNat)
      else if m % Nat.pow 2 e.natAbs = 0 then some (m / Nat.pow 2 e.natAbs) else none
    whole.map fun n => if negative then -(n : Int) else n
  | _ => none

/-- The number with the other sign. -/
def negate : Binary64 → Binary64
  | .finite negative m e => .finite (!negative) m e
  | .infinite negative => .infinite (!negative)
  | .nan payload => .nan payload

/-! ## §3. Sums and products. -/

/-- A natural number with a sign. -/
def signed (negative : Bool) (n : Nat) : Int := if negative then -(n : Int) else n

/-- The sum of two numbers.  Numbers that cancel out give the zero without a sign. -/
def add : Binary64 → Binary64 → Binary64
  | .nan payload, _ => .nan payload
  | _, .nan payload => .nan payload
  | .infinite a, .infinite b => if a = b then .infinite a else .nan 0
  | .infinite a, _ => .infinite a
  | _, .infinite b => .infinite b
  | .finite a m e, .finite b n f =>
    let least := min e f
    let total := signed a (m * Nat.pow 2 (e - least).toNat)
      + signed b (n * Nat.pow 2 (f - least).toNat)
    if total = 0 then .finite (a && b) 0 leastExponent
    else
      let (x, y) := scale total.natAbs 1 least
      ofRatio (total < 0) x y

/-- The product of two numbers. -/
def mul : Binary64 → Binary64 → Binary64
  | .nan payload, _ => .nan payload
  | _, .nan payload => .nan payload
  | .finite a m e, .finite b n f =>
    let (x, y) := scale (m * n) 1 (e + f)
    ofRatio (a != b) x y
  | .infinite a, .infinite b => .infinite (a != b)
  | .infinite a, .finite b n _ => if n = 0 then .nan 0 else .infinite (a != b)
  | .finite a m _, .infinite b => if m = 0 then .nan 0 else .infinite (a != b)

/-! ## §4. The shortest decimal. -/

/-- `mantissa · 2 ^ exponent` as a fraction. -/
def fraction (mantissa : Nat) (exponent : Int) : Nat × Nat := scale mantissa 1 exponent

/-- `a / b < c / d`. -/
def ratioLt (x y : Nat × Nat) : Bool := x.1 * y.2 < y.1 * x.2

/-- The reals that round to a number: the ends of the interval, and whether they belong to
it.  Below a power of two the neighbour is half as far. -/
def rounding (mantissa : Nat) (exponent : Int) : (Nat × Nat) × (Nat × Nat) × Bool :=
  let below := if mantissa = Nat.pow 2 52 && leastExponent < exponent then 1 else 2
  (fraction (4 * mantissa - below) (exponent - 2), fraction (4 * mantissa + 2) (exponent - 2),
    mantissa % 2 = 0)

/-- `coefficient · 10 ^ exponent` as a fraction. -/
def decimalFraction (coefficient : Nat) (exponent : Int) : Nat × Nat :=
  if exponent < 0 then (coefficient, Nat.pow 10 exponent.natAbs)
  else (coefficient * Nat.pow 10 exponent.toNat, 1)

/-- The fraction lies in the interval. -/
def within (interval : (Nat × Nat) × (Nat × Nat) × Bool) (x : Nat × Nat) : Bool :=
  let (low, high, closed) := interval
  if closed then !ratioLt x low && !ratioLt high x
  else ratioLt low x && ratioLt x high

/-- The distance of two fractions, as a fraction. -/
def distance (x y : Nat × Nat) : Nat × Nat :=
  let a := x.1 * y.2
  let b := y.1 * x.2
  (if a < b then b - a else a - b, x.2 * y.2)

/-- The multiple of `10 ^ exponent` that reads back as the number, the nearer of its two
neighbours among them; a tie goes to the even one. -/
def onGrid? (mantissa : Nat) (binary exponent : Int) : Option Nat :=
  let value := fraction mantissa binary
  let step := decimalFraction 1 exponent
  let low := (value.1 * step.2) / (value.2 * step.1)
  let interval := rounding mantissa binary
  let lowFits := within interval (decimalFraction low exponent) && low ≠ 0
  let highFits := within interval (decimalFraction (low + 1) exponent)
  let toLow := distance value (decimalFraction low exponent)
  let toHigh := distance value (decimalFraction (low + 1) exponent)
  if lowFits && highFits then
    if ratioLt toLow toHigh then some low
    else if ratioLt toHigh toLow then some (low + 1)
    else if low % 2 = 0 then some low else some (low + 1)
  else if lowFits then some low
  else if highFits then some (low + 1)
  else none

/-- The number of digits before the point of a positive fraction; negative for zeros after
the point. -/
def pointOf (x : Nat × Nat) : Int :=
  let guess : Int := ((Nat.toDigits 10 x.1).length : Int) - (Nat.toDigits 10 x.2).length
  if ratioLt x (decimalFraction 1 guess) then guess else guess + 1

/-- A coefficient without zeros at its end, and the exponent that makes up for them. -/
def trimZeros (coefficient : Nat) (exponent : Int) : Nat × Int :=
  let digits := (Nat.toDigits 10 coefficient).reverse
  let zeros := (digits.takeWhile (· = '0')).length
  (coefficient / Nat.pow 10 zeros, exponent + zeros)

/-- The shortest decimal, `coefficient · 10 ^ exponent`, that reads back as a positive
number. -/
def shortest (mantissa : Nat) (binary : Int) : Nat × Int :=
  let point := pointOf (fraction mantissa binary)
  let grids := (List.range 17).map fun (n : Nat) => point - ((n : Int) + 1)
  match grids.findSome? fun e => (onGrid? mantissa binary e).map fun c => (c, e) with
  | some (coefficient, exponent) => trimZeros coefficient exponent
  | none => (0, 0)

/-! ## §5. Written numbers. -/

/-- The text of an exponent: a sign and at least two digits. -/
def exponentText (e : Int) : List Char :=
  let digits := Nat.toDigits 10 e.natAbs
  (if e < 0 then '-' else '+') ::
    (if digits.length < 2 then '0' :: digits else digits)

/-- Digits with a point after the first `point` of them.  Numbers from 10⁻⁴ up to 10¹⁶ are
written by position, with at least one digit after the point; others with an exponent. -/
def layout (digits : List Char) (point : Int) : List Char :=
  if -4 < point && point ≤ 16 then
    if point ≤ 0 then '0' :: '.' :: List.replicate point.natAbs '0' ++ digits
    else
      let whole := digits.take point.toNat
      let fraction := digits.drop point.toNat
      whole ++ List.replicate (point.toNat - whole.length) '0' ++
        '.' :: (if fraction.isEmpty then ['0'] else fraction)
  else
    digits.take 1 ++ (if digits.length = 1 then [] else '.' :: digits.drop 1) ++
      'e' :: exponentText (point - 1)

/-- The text of a number. -/
def render : Binary64 → List Char
  | .nan _ => ['n', 'a', 'n']
  | .infinite negative => (if negative then ['-'] else []) ++ ['i', 'n', 'f']
  | .finite negative m e =>
    let sign := if negative then ['-'] else []
    if m = 0 then sign ++ ['0', '.', '0']
    else
      let (coefficient, exponent) := shortest m e
      let digits := Nat.toDigits 10 coefficient
      sign ++ layout digits (exponent + digits.length)

end Binary64

end EmbeddedExpr
