/-! # ApiChronicle.Text.CharRange

Evenly spaced **ranges of code points**, the form in which the character tables
are written down. Cased scripts alternate capitals and small letters, so ranges
carry a step: a step of two covers every other code point.
-/

namespace ApiChronicle

/-- The code points `first, first + step, …, last`. -/
structure CharRange where
  first : Nat
  last : Nat
  step : Nat

namespace CharRange

def contains (r : CharRange) (code : Nat) : Bool :=
  r.first ≤ code && code ≤ r.last && (code - r.first) % r.step == 0

def table (rows : List (Nat × Nat × Nat)) : List CharRange :=
  rows.map fun (first, last, step) => ⟨first, last, step⟩

end CharRange

/-- Moves every code point of a range by the same distance. -/
structure CharShift where
  range : CharRange
  distance : Int

namespace CharShift

/-- The character a table of shifts sends `c` to; characters outside every range
stay where they are. -/
def apply (shifts : List CharShift) (c : Char) : Char :=
  match shifts.find? (·.range.contains c.toNat) with
  | some shift => Char.ofNat (c.toNat + shift.distance).toNat
  | none => c

/-- The shifts of a table of rows. -/
def table (rows : List (Nat × Nat × Nat × Int)) : List CharShift :=
  rows.map fun (first, last, step, distance) => ⟨⟨first, last, step⟩, distance⟩

end CharShift

end ApiChronicle
