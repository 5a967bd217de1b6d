/-!
# Binary floating point numbers of 64 bits

A double is its bits: a sign, eleven bits of exponent and fifty-two of fraction. All arithmetic on
it is exact arithmetic on natural numbers; a finite double has the magnitude
`significand * 2 ^ power`. Rounding is to the nearest double, a tie to the even one.
-/

namespace Splice

structure Binary64 where
  bits : UInt64
  deriving DecidableEq

/-- The quotient to the nearest natural number, a half to the even one. -/
def roundHalfEven (num den : Nat) : Nat :=
  let below := num / den
  let twice := 2 * (num % den)
  if twice < den ∨ (twice = den ∧ below % 2 = 0) then below else below + 1

/-- The numerator of `n * 2 ^ e`, whose denominator is `timesTwo 1 (-e)`. -/
def timesTwo (n : Nat) (e : Int) : Nat := n <<< e.toNat

/-- The numerator of `n * 10 ^ e`, whose denominator is `timesTen 1 (-e)`. -/
def timesTen (n : Nat) (e : Int) : Nat := n * Nat.pow 10 e.toNat

/-- The exponent of the greatest power of two that is not above a positive quotient. -/
def floorLog2 (num den : Nat) : Int :=
  let guess := (num.log2 : Int) - den.log2
  if timesTwo num (-guess) < timesTwo den guess then guess - 1 else guess

namespace Binary64

/-- The place of the sign in the bits. -/
def signUnit : Nat := 0x8000000000000000

/-- The place of the exponent in the bits, which is also that of the leading bit of a significand
that the fraction leaves out. -/
def exponentUnit : Nat := 0x10000000000000

variable (x : Binary64)

def isNegative : Bool := signUnit ≤ x.bits.toNat

/-- The exponent field, as stored. -/
def exponent : Nat := x.bits.toNat / exponentUnit % 2048

def fraction : Nat := x.bits.toNat % exponentUnit

def isFinite : Bool := x.exponent != 2047

def isNaN : Bool := x.exponent == 2047 && x.fraction != 0

def isZero : Bool := x.exponent == 0 && x.fraction == 0

def significand : Nat := if x.exponent = 0 then x.fraction else exponentUnit + x.fraction

def power : Int := if x.exponent = 0 then -1074 else (x.exponent : Int) - 1075

/-- The neighbour below is at half the distance of the neighbour above. -/
def isNarrowBelow : Bool := x.fraction == 0 && 1 < x.exponent

/-- The double of a sign and the other 63 bits. -/
def ofMagnitude (negative : Bool) (magnitude : Nat) : Binary64 :=
  ⟨UInt64.ofNat ((if negative then signUnit else 0) + magnitude)⟩

def zero (negative : Bool) : Binary64 := ofMagnitude negative 0

def infinity (negative : Bool) : Binary64 := ofMagnitude negative (2047 * exponentUnit)

def nan : Binary64 := ofMagnitude false (2047 * exponentUnit + exponentUnit / 2)

/-- The double nearest to a quotient, by the sign given. From halfway past the greatest finite
double on, that is an infinity. -/
def ofRatio (negative : Bool) (num den : Nat) : Binary64 :=
  if num = 0 then zero negative
  else
    let unit := max (floorLog2 num den - 52) (-1074)
    let units := roundHalfEven (timesTwo num (-unit)) (timesTwo den unit)
    ofMagnitude negative
      (min ((unit + 1074).toNat * exponentUnit + units) (2047 * exponentUnit))

def ofInt (n : Int) : Binary64 := ofRatio (n < 0) n.natAbs 1

/-- Equality of numbers: zero equals negative zero, and NaN nothing at all. -/
def equals (x y : Binary64) : Bool :=
  !x.isNaN && !y.isNaN && (x == y || (x.isZero && y.isZero))

end Binary64
end Splice
