import ApiChronicle.Binary64

/-! # ApiChronicle.Binary64.Shortest

The **shortest decimal text that reads back** as the same binary64 number.

The reals that round to a number form an interval, whose ends belong to it when
the significand is even. For one digit, two digits, and so on up to seventeen,
the decimals just below and just above the number are tried; the first count of
digits with a decimal in the interval wins, and of two the nearer one.
-/

namespace ApiChronicle.Binary64

/-- The decimal number `digits * 10 ^ exponent`. -/
structure Decimal where
  digits : Nat
  exponent : Int
  deriving DecidableEq, Repr

def powerOfTen (k : Int) : Nat × Nat := (Nat.pow 10 k.toNat, Nat.pow 10 (-k).toNat)

def digitCount (n : Nat) : Nat := (Nat.toDigits 10 n).length

/-- The exponent of the leading decimal digit of the positive ratio `num / den`. -/
def leadingExponent (num den : Nat) : Int :=
  if den ≤ num then (digitCount (num / den) : Int) - 1
  else
    let count := digitCount (den / num)
    if den ≤ num * Nat.pow 10 (count - 1) then 1 - (count : Int) else -(count : Int)

/-- The ends of the interval of magnitudes that round to `x`, in quarters of the
unit `2 ^ exponent`. Just below a power of two the numbers lie twice as dense. -/
def quarters (x : Binary64) : Nat × Nat :=
  let centre := 4 * x.significand
  if x.significand = leadingBit ∧ minExponent < x.exponent then (centre - 1, centre + 2)
  else (centre - 2, centre + 2)

def roundsTo (x : Binary64) (d : Decimal) : Bool :=
  let (low, high) := quarters x
  let (up, down) := powerOfTwo (x.exponent - 2)
  let (tens, tenths) := powerOfTen d.exponent
  let value := d.digits * tens * down
  let unit := up * tenths
  if x.significand % 2 = 0 then low * unit ≤ value && value ≤ high * unit
  else low * unit < value && value < high * unit

/-- The decimals of a given exponent that round to `x`, the nearest first. -/
def neighbours (x : Binary64) (exponent : Int) : List Decimal :=
  let (num, den) := x.magnitude
  let (tens, tenths) := powerOfTen exponent
  let below := num * tenths / (den * tens)
  let twice := 2 * (num * tenths % (den * tens))
  let belowFirst := twice < den * tens || (twice = den * tens && below % 2 = 0)
  let pair := if belowFirst then [below, below + 1] else [below + 1, below]
  (pair.map fun digits => (⟨digits, exponent⟩ : Decimal)).filter x.roundsTo

/-- The decimal without zeros at its end. -/
def Decimal.strip : Nat → Decimal → Decimal
  | 0, d => d
  | fuel + 1, d =>
    if d.digits ≠ 0 ∧ d.digits % 10 = 0 then strip fuel ⟨d.digits / 10, d.exponent + 1⟩ else d

/-- The shortest decimal that rounds to a number other than zero. -/
def shortest (x : Binary64) : Decimal :=
  let (num, den) := x.magnitude
  let leading := leadingExponent num den
  let exponents := (List.range 17).map fun (count : Nat) => leading - (count : Int)
  match exponents.findSome? fun exponent => (x.neighbours exponent).head? with
  | some d => d.strip 20
  | none => ⟨num / den, 0⟩

/-- Positional notation is used while the leading digit stands for at least
`10 ^ leastPositional`. -/
def leastPositional : Int := -5

/-- Positional notation is used while the leading digit stands for less than
`10 ^ leastScientific`. -/
def leastScientific : Int := 16

/-- The text of a decimal. Positional notation keeps one digit after the point;
the exponent of scientific notation carries its sign. -/
def Decimal.text (d : Decimal) : String :=
  let digits := Nat.toDigits 10 d.digits
  let leading := d.exponent + (digits.length : Int) - 1
  if leastPositional ≤ leading ∧ leading < leastScientific then
    if 0 ≤ d.exponent then
      String.ofList (digits ++ List.replicate d.exponent.toNat '0') ++ ".0"
    else if 0 ≤ leading then
      let whole := leading.toNat + 1
      String.ofList (digits.take whole) ++ "." ++ String.ofList (digits.drop whole)
    else
      "0." ++ String.ofList (List.replicate (-leading - 1).toNat '0' ++ digits)
  else
    let fraction := digits.drop 1
    let point := if fraction.isEmpty then "" else "." ++ String.ofList fraction
    let sign := if 0 ≤ leading then "+" else "-"
    String.ofList (digits.take 1) ++ point ++ "e" ++ sign ++
      String.ofList (Nat.toDigits 10 leading.natAbs)

/-- The text of a number; zero keeps its sign. -/
def text (x : Binary64) : String :=
  let sign := if x.negative then "-" else ""
  if x.significand = 0 then sign ++ "0.0" else sign ++ x.shortest.text

end ApiChronicle.Binary64
