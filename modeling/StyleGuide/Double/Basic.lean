/-!
# Double-precision numbers

A number of a JSON document that is not a whole number is kept as the 64 bits of the nearest
double: a sign, an exponent and a fraction. Everything here is exact arithmetic on natural
numbers. `Double.ofDecimal` rounds a decimal to the nearest double, a tie to the even one.
-/

namespace StyleGuide

structure Double where
  bits : UInt64
  deriving DecidableEq, Inhabited, Repr

namespace Double

def signWeight : Nat := 1 <<< 63

/-- The weight of the lowest exponent bit, one more than the largest fraction. -/
def exponentWeight : Nat := 1 <<< 52

/-- The number is below zero, or the negative zero. -/
def isNegative (x : Double) : Bool := signWeight ≤ x.bits.toNat

def magnitude (x : Double) : Nat := x.bits.toNat % signWeight

def exponentBits (x : Double) : Nat := x.magnitude / exponentWeight

def fractionBits (x : Double) : Nat := x.magnitude % exponentWeight

def isZero (x : Double) : Bool := x.magnitude == 0

/-- The magnitude of infinity; all that is larger is not a number. -/
def infinityBits : Nat := 0x7FF * exponentWeight

def ofMagnitude (negative : Bool) (magnitude : Nat) : Double :=
  ⟨UInt64.ofNat ((if negative then signWeight else 0) + magnitude)⟩

def infinity (negative : Bool) : Double := ofMagnitude negative infinityBits

def nan : Double := ofMagnitude false (infinityBits + exponentWeight / 2)

/-- The magnitude of a finite double is `significand * 2 ^ scale`. -/
def significand (x : Double) : Nat :=
  if x.exponentBits = 0 then x.fractionBits else x.fractionBits + exponentWeight

/-- The power of two that goes with `significand`. -/
def scale (x : Double) : Int :=
  if x.exponentBits = 0 then -1074 else (x.exponentBits : Int) - 1075

def isFinite (x : Double) : Bool := x.magnitude < infinityBits

def toInt? (x : Double) : Option Int :=
  let weight := 1 <<< (-x.scale).toNat
  let size := x.significand <<< x.scale.toNat
  if x.isFinite && size % weight == 0 then
    some (if x.isNegative then -(size / weight : Nat) else (size / weight : Nat))
  else none

/-! ### Rounding a decimal -/

/-- `a * 2 ^ e / b` as a fraction of natural numbers. -/
def scaled (a b : Nat) (e : Int) : Nat × Nat :=
  if 0 ≤ e then (a <<< e.toNat, b) else (a, b <<< (-e).toNat)

/-- A quotient rounded to the nearest natural number, a half to the even one. -/
def roundHalfEven (a b : Nat) : Nat :=
  let q := a / b
  let twice := 2 * (a % b)
  if twice < b then q else if b < twice then q + 1 else q + q % 2

/-- The magnitude bits of the double nearest to the positive fraction `a / b`. -/
def nearest (a b : Nat) : Nat :=
  let low : Int := (Nat.log2 a : Int) - (Nat.log2 b : Int) - 53
  let (c, d) := scaled a b (-low)
  let fitted := if 2 * exponentWeight ≤ c / d then low + 1 else low
  let e := max fitted (-1074)
  let (c, d) := scaled a b (-e)
  min infinityBits ((e + 1074).toNat * exponentWeight + roundHalfEven c d)

/-- The double nearest to `digits * 10 ^ exponent`, with the given sign. Exponents beyond the
range of doubles give infinity or zero at once. -/
def ofDecimal (negative : Bool) (digits : Nat) (exponent : Int) : Double :=
  let size : Int := (Nat.toDigits 10 digits).length + exponent
  if digits = 0 ∨ size < -330 then ofMagnitude negative 0
  else if 310 < size then infinity negative
  else if 0 ≤ exponent then ofMagnitude negative (nearest (digits * Nat.pow 10 exponent.toNat) 1)
  else ofMagnitude negative (nearest digits (Nat.pow 10 (-exponent).toNat))

end Double

end StyleGuide
