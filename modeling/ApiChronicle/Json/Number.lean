import ApiChronicle.Json
import ApiChronicle.Json.Token

/-! # ApiChronicle.Json.Number

The **values of number literals**.

A literal without point and exponent is an integer if 64 bits hold it, unsigned
when it is positive and signed when it is negative; `-0` is no integer but the
negative zero. Every other literal is a binary64 number: as many of its leading
digits as an unsigned word of 64 bits holds are converted, and the result is
multiplied or divided once by a power of ten. A literal beyond the largest
binary64 number has no value.
-/

namespace ApiChronicle.Json.NumberLiteral

/-- The largest unsigned integer of 64 bits. -/
def maxUnsigned : Nat := Nat.pow 2 64 - 1

/-- The largest magnitude of a negative integer of 64 bits. -/
def maxNegated : Nat := Nat.pow 2 63

/-- Append digits to a word as long as it does not overflow; the digits left over
are returned beside it. -/
def takeWord (word : Nat) : List Nat → Nat × List Nat
  | [] => (word, [])
  | d :: rest =>
    if word * 10 + d ≤ maxUnsigned then takeWord (word * 10 + d) rest else (word, d :: rest)

/-- The natural number a run of digits denotes. -/
def natOfDigits (ds : List Nat) : Nat := ds.foldl (fun n d => n * 10 + d) 0

/-- The largest power of ten that is a binary64 number. -/
def maxTenPower : Nat := 308

/-- `x * 10 ^ exponent`, where powers that are no binary64 numbers are applied in
steps. A word of 64 bits is rounded to zero after two steps down. -/
def scale : Nat → Binary64 → Int → Option Binary64
  | 0, x, _ => some (.zero x.negative)
  | steps + 1, x, exponent =>
    if exponent.natAbs ≤ maxTenPower then do
      let power ← Binary64.ofNat? false (Nat.pow 10 exponent.natAbs)
      if 0 ≤ exponent then x.mul? power else x.div? power
    else if x.significand = 0 then some x
    else if 0 ≤ exponent then none
    else do
      let power ← Binary64.ofNat? false (Nat.pow 10 maxTenPower)
      scale steps (← x.div? power) (exponent + maxTenPower)

def float? (negative : Bool) (word : Nat) (exponent : Int) : Option JsonNumber := do
  let magnitude ← Binary64.ofNat? negative word
  JsonNumber.float <$> scale 4 magnitude exponent

def statedExponent (l : NumberLiteral) : Int :=
  match l.exponent with
  | none => 0
  | some (true, ds) => -(natOfDigits ds : Int)
  | some (false, ds) => natOfDigits ds

def value? (l : NumberLiteral) : Option JsonNumber :=
  let (word, left) := takeWord 0 l.whole
  if l.fraction.isEmpty && l.exponent.isNone && left.isEmpty then
    if !l.negative then some (.integer word)
    else if 1 ≤ word ∧ word ≤ maxNegated then some (.integer (-(word : Int)))
    else float? true word 0
  else
    let (word, unused) := takeWord word l.fraction
    let taken := l.fraction.length - unused.length
    float? l.negative word (left.length - taken + l.statedExponent)

/-- The value of a literal for an unsigned integer of 64 bits. -/
def unsigned? (l : NumberLiteral) : Option Nat :=
  if l.negative || !l.fraction.isEmpty || l.exponent.isSome then none
  else if natOfDigits l.whole ≤ maxUnsigned then some (natOfDigits l.whole) else none

end ApiChronicle.Json.NumberLiteral
