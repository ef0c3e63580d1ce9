import ApiChronicle.TypeUse
import ApiChronicle.Window

/-! # ApiChronicle.DefinitionError

What an author of type and endpoint definitions can get **wrong**, and how the
fault is worded.
-/

namespace ApiChronicle

/-- Why the type of an ID property identifies nothing. -/
inductive IdTypeFault
  /-- The primitive is no identifier. -/
  | primitive (p : Primitive)
  /-- The alias stands for a primitive that is no identifier. -/
  | aliasOf (name : QualifiedName) (p : Primitive)
  /-- The property has structure. -/
  | structured (type : TypeUse)
  deriving DecidableEq, Repr

def IdTypeFault.text : IdTypeFault → String
  | primitive p => p.keyword
  | aliasOf name p => s!"alias {name.text} of {p.keyword}"
  | structured type => type.form

/-- A fault in a definition. -/
inductive DefinitionError
  /-- A fault in a window or a timeline. -/
  | timeline (cause : TimelineError)
  /-- The name of a type is taken. -/
  | duplicateDeclaration (name : QualifiedName)
  /-- Two members with one key exist at the same version. -/
  | duplicateMember (declaration : QualifiedName) (member : String) (version : Version)
  /-- A type that is needed is not declared. -/
  | missingDeclaration (name : QualifiedName)
  /-- The elements of an index have no ID property. -/
  | missingIdProperty (path key : String)
  /-- The ID property of the elements of an index identifies nothing. -/
  | invalidIdType (path key : String) (fault : IdTypeFault)
  /-- The elements of an index are no objects. -/
  | invalidIdSchema (path found : String)
  /-- A reference that names no type. -/
  | unknownType (reference scope : String)
  deriving DecidableEq, Repr

def DefinitionError.message : DefinitionError → String
  | timeline cause => cause.message
  | duplicateDeclaration name => s!"type {name.text} is declared more than once"
  | duplicateMember declaration member version =>
    s!"{declaration.text} has more than one member \"{member}\" at {version.text}"
  | missingDeclaration name => s!"type {name.text} is not declared"
  | missingIdProperty path key =>
    s!"query {path}: no ID property \"{key}\" in the response schema"
  | invalidIdType path key fault =>
    s!"query {path}: ID property \"{key}\" is not an identifier ({fault.text})"
  | invalidIdSchema path found =>
    s!"query {path}: index queries need a record or conditional schema, got {found}"
  | unknownType reference scope => s!"unknown type reference \"{reference}\" in {scope}"

end ApiChronicle
