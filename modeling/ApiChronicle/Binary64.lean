/-! # ApiChronicle.Binary64

Finite **binary64 numbers**, in exact arithmetic.

A number is a sign, a significand below `2 ^ 53` and an exponent of two that is at
least `-1074`; significands below `2 ^ 52` occur only with the least exponent.
Every operation computes its exact result as a ratio of natural numbers and
rounds it once, to the nearest number and to an even significand when two are
equally near. There are no infinities: a result beyond the largest number is
`none`.
-/

namespace ApiChronicle

/-- The number `± significand * 2 ^ exponent`. -/
structure Binary64 where
  negative : Bool
  significand : Nat
  exponent : Int
  deriving DecidableEq, Repr, Inhabited

namespace Binary64

/-- The leading bit of a significand of 53 bits. -/
def leadingBit : Nat := Nat.pow 2 52

def minExponent : Int := -1074

def maxExponent : Int := 971

/-- `2 ^ k` as a ratio of natural numbers. -/
def powerOfTwo (k : Int) : Nat × Nat := (Nat.pow 2 k.toNat, Nat.pow 2 (-k).toNat)

/-- The integer nearest to `num / den`, an even one if two are. -/
def nearestEven (num den : Nat) : Nat :=
  let quotient := num / den
  let twice := 2 * (num % den)
  if twice < den then quotient
  else if den < twice then quotient + 1
  else quotient + quotient % 2

/-- The exponent that gives `num / den` a significand of 53 bits. -/
def exponentOf (num den : Nat) : Int :=
  let estimate : Int := (num.log2 : Int) - (den.log2 : Int)
  let (up, down) := powerOfTwo estimate
  if num * down < den * up then estimate - 53 else estimate - 52

/-- The number of the given sign nearest to the magnitude `num / den`. -/
def round? (negative : Bool) (num den : Nat) : Option Binary64 :=
  if num = 0 then some ⟨negative, 0, minExponent⟩
  else
    let exponent := max (exponentOf num den) minExponent
    let (up, down) := powerOfTwo exponent
    let nearest := nearestEven (num * down) (den * up)
    let rounded : Binary64 :=
      if nearest = 2 * leadingBit then ⟨negative, leadingBit, exponent + 1⟩
      else ⟨negative, nearest, exponent⟩
    if rounded.exponent ≤ maxExponent then some rounded else none

/-- The magnitude as a ratio of natural numbers. -/
def magnitude (x : Binary64) : Nat × Nat :=
  let (up, down) := powerOfTwo x.exponent
  (x.significand * up, down)

def zero (negative : Bool) : Binary64 := ⟨negative, 0, minExponent⟩

/-- The number nearest to a natural number, with a sign. -/
def ofNat? (negative : Bool) (n : Nat) : Option Binary64 := round? negative n 1

def mul? (x y : Binary64) : Option Binary64 :=
  let (xn, xd) := x.magnitude
  let (yn, yd) := y.magnitude
  round? (x.negative != y.negative) (xn * yn) (xd * yd)

/-- The rounded quotient by a number other than zero. -/
def div? (x y : Binary64) : Option Binary64 :=
  let (xn, xd) := x.magnitude
  let (yn, yd) := y.magnitude
  round? (x.negative != y.negative) (xn * yd) (xd * yn)

end Binary64

end ApiChronicle
