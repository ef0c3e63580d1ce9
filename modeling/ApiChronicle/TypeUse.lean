import ApiChronicle.Name
import ApiChronicle.Vocabulary

/-! # ApiChronicle.TypeUse

**Uses of types**, and the names they mention.

A use refers to aliases and declarations by name and never contains them, so
types may be recursive and a use means the same at every version. What changes
with the version is whether the names it mentions exist.
-/

namespace ApiChronicle

/-- The type of a value at one place. -/
inductive TypeUse
  | primitive (p : Primitive)
  | array (elements : TypeUse) (nullableElements : Bool)
  | map (keys values : TypeUse) (nullableValues : Bool)
  | alias (name : QualifiedName)
  | declaration (name : QualifiedName)
  deriving DecidableEq, Repr, Inhabited

/-- A name that occurs in a type use, with the kind of type it must stand for. -/
inductive Mention
  | alias (name : QualifiedName)
  | declaration (name : QualifiedName)
  deriving DecidableEq, Repr, Inhabited

def Mention.name : Mention → QualifiedName
  | .alias name => name
  | .declaration name => name

namespace TypeUse

/-- An array without missing elements. -/
def arrayOf (elements : TypeUse) : TypeUse := array elements false

/-- The names that occur in a use, from left to right. -/
def mentions : TypeUse → List Mention
  | .primitive _ => []
  | .array elements _ => elements.mentions
  | .map keys values _ => keys.mentions ++ values.mentions
  | .alias name => [.alias name]
  | .declaration name => [.declaration name]

/-- The name the use consists of, if it is one. -/
def named? : TypeUse → Option QualifiedName
  | .alias name => some name
  | .declaration name => some name
  | _ => none

def form : TypeUse → String
  | .primitive _ => "primitive"
  | .array _ _ => "array"
  | .map _ _ _ => "map"
  | .alias _ => "alias"
  | .declaration _ => "declaration"

end TypeUse

end ApiChronicle
