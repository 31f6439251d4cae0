import StyleGuide.Double.Basic
import StyleGuide.Text.Basic

/-!
# The shortest decimal of a double

A double is written with the fewest digits that still read back as the same double; of
several such decimals the nearest is taken, and of two equally near the even one. Numbers of
ordinary size are written positionally, with at least one digit behind the point, all
others with an exponent of at least two digits.
-/

namespace StyleGuide.Double

/-- A decimal `digits * 10 ^ exponent`. -/
structure Decimal where
  digits : Nat
  exponent : Int
  deriving DecidableEq, Repr

/-- The fractions that read back as one double: `low / unit ≤ x ≤ high / unit`, the ends
included or not. -/
structure Interval where
  low : Nat
  value : Nat
  high : Nat
  unit : Nat
  closed : Bool

/-- The interval of fractions that round to a finite double. The neighbour below is only half
as far away where the exponent changes. -/
def interval (x : Double) : Interval :=
  let m := x.significand
  let below := if x.fractionBits = 0 ∧ 1 < x.exponentBits then 1 else 2
  let e := x.scale - 2
  let up (n : Nat) := (scaled n 1 e).1
  ⟨up (4 * m - below), up (4 * m), up (4 * m + 2), (scaled 1 1 e).2, m % 2 == 0⟩

def Interval.contains (i : Interval) (a b : Nat) : Bool :=
  if i.closed then i.low * b ≤ a * i.unit && a * i.unit ≤ i.high * b
  else i.low * b < a * i.unit && a * i.unit < i.high * b

/-- The position of the first digit of a positive fraction: the exponent `e` with
`10 ^ e ≤ a / b < 10 ^ (e + 1)`. -/
def leadingExponent (a b : Nat) : Int :=
  if b ≤ a then (Nat.toDigits 10 (a / b)).length - 1
  else
    let width := (Nat.toDigits 10 (b / a)).length
    if b ≤ a * Nat.pow 10 (width - 1) then -((width : Int) - 1) else -(width : Int)

/-- `n * 10 ^ e` as a fraction. -/
def decimalFraction (n : Nat) (e : Int) : Nat × Nat :=
  if 0 ≤ e then (n * Nat.pow 10 e.toNat, 1) else (n, Nat.pow 10 (-e).toNat)

/-- The two neighbours of the value on the decimal grid `10 ^ e`, kept if they read back; the
nearer one comes first, and of two equally near the even one. -/
def gridHits (i : Interval) (e : Int) : List Nat :=
  let (p, q) := decimalFraction 1 e
  let floor := i.value * q / (i.unit * p)
  let hit (n : Nat) : Bool := let (a, b) := decimalFraction n e; i.contains a b
  let twice := 2 * (i.value * q - floor * (i.unit * p))
  let floorFirst := twice < i.unit * p || (twice == i.unit * p && floor % 2 == 0)
  (if floorFirst then [floor, floor + 1] else [floor + 1, floor]).filter hit

/-- The decimal on the coarsest grid that has one, with `count` digits or more. The number of
digits is bounded by `fuel`; seventeen always suffice. -/
def searchGrid (i : Interval) (lead : Int) (count : Nat) : (fuel : Nat) → Decimal
  | 0 => ⟨i.value / i.unit, 0⟩
  | fuel + 1 =>
    let e := lead + 1 - count
    match gridHits i e with
    | n :: _ => ⟨n, e⟩
    | [] => searchGrid i lead (count + 1) fuel

/-- The digits of the shortest decimal of a finite, non-zero double, without trailing zeros,
and the exponent of the first digit. -/
def shortest (x : Double) : Text × Int :=
  let i := x.interval
  let d := searchGrid i (leadingExponent i.value i.unit) 1 17
  let digits := Nat.toDigits 10 d.digits
  let kept := (digits.reverse.dropWhile (· == '0')).reverse
  (kept, d.exponent + (digits.length : Int) - 1)

/-! ### Layout -/

/-- Exponents of the first digit for which a number is written positionally. -/
def isPositional (e : Int) : Bool := -4 ≤ e && e < 16

def positional (digits : Text) (e : Int) : Text :=
  if e < 0 then ['0', '.'] ++ List.replicate ((-e).toNat - 1) '0' ++ digits
  else
    let whole := e.toNat + 1
    let before := digits.take whole
    let after := digits.drop whole
    before ++ List.replicate (whole - before.length) '0' ++ ['.']
      ++ (if after.isEmpty then ['0'] else after)

def scientific (digits : Text) (e : Int) : Text :=
  let tail := digits.drop 1
  let width := Nat.toDigits 10 e.natAbs
  digits.take 1 ++ (if tail.isEmpty then [] else '.' :: tail)
    ++ ['e', if e < 0 then '-' else '+'] ++ (if width.length < 2 then '0' :: width else width)

structure SpecialTexts where
  infinity : Text
  nan : Text

def render (special : SpecialTexts) (x : Double) : Text :=
  if infinityBits < x.magnitude then special.nan
  else
    (if x.isNegative then ['-'] else []) ++
    (if x.magnitude = infinityBits then special.infinity
     else if x.isZero then ['0', '.', '0']
     else
      let (digits, e) := x.shortest
      if isPositional e then positional digits e else scientific digits e)

end StyleGuide.Double
