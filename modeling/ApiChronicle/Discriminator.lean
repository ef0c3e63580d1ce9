import ApiChronicle.Json.Text
import ApiChronicle.Shape

/-! # ApiChronicle.Discriminator

Which **interpretation** of a conditional a payload follows.

The discriminator is read from the payload itself or, for conditionals that say
so, from a value beside it. Scalars select by their text: the number `1` selects
like the string `"1"`, and `true` like `"true"`.
-/

namespace ApiChronicle

abbrev Conditional := ConditionalShape Property Interpretation

/-- Why no interpretation was selected. -/
inductive DiscriminatorError
  /-- There is no discriminator. -/
  | missing (conditional : QualifiedName) (selector : String)
  /-- The discriminator selects nothing. -/
  | unknown (conditional : QualifiedName) (selector value : String)
  deriving DecidableEq, Repr

def DiscriminatorError.message : DiscriminatorError → String
  | missing conditional selector =>
    s!"{conditional.text}: discriminator \"{selector}\" is missing"
  | unknown conditional selector value =>
    s!"{conditional.text}: no interpretation for {selector} = \"{value}\""

/-- The text by which a scalar selects. -/
def Json.selectorText? : Json → Option String
  | .string s => some s
  | .number n => some n.text
  | .bool b => some (if b then "true" else "false")
  | _ => none

namespace ConditionalShape

/-- The value of the discriminator. The side value counts only for conditionals
whose discriminator stands beside the payload. -/
def discriminator? (c : Conditional) (payload : Json) (side : Option String) : Option String :=
  if c.selectorInSideProperty then side
  else (payload.member? c.selector).bind Json.selectorText?

/-- The interpretation a payload follows. -/
def select (c : Conditional) (payload : Json) (side : Option String) :
    Except DiscriminatorError Interpretation :=
  match c.discriminator? payload side with
  | none => .error (.missing c.name c.selector)
  | some value =>
    match c.interpretations.get? value with
    | none => .error (.unknown c.name c.selector value)
    | some interpretation => .ok interpretation

/-- The part of a payload that an interpretation describes. -/
def payloadOf? (c : Conditional) (i : Interpretation) (payload : Json) : Option Json :=
  if c.interpretationInNestedProperty then payload.member? (i.nestProperty.getD i.key)
  else some payload

end ConditionalShape

end ApiChronicle
