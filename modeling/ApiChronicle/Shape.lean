import ApiChronicle.TypeUse
import ApiChronicle.Version

/-! # ApiChronicle.Shape

The **shapes** of named types.

A shape is an alias, an enumeration, a record, a tuple or a conditional. Shapes
come in two forms that differ in their members only: in a `Declaration` members
may still carry dates of their own, in a `Schema` they do not. `Shape.resolved`
leads from the first to the second and keeps everything else, because what a
shape refers to it refers to by name.
-/

namespace ApiChronicle

/-- A property of a record, or one shared by the arms of a conditional. -/
structure Property where
  name : Name
  type : TypeUse
  /-- The key of the property in a payload. -/
  serialName : String
  description : String
  optionality : Optionality
  isDeprecated : Bool
  /-- The members of the property's type stand in the object itself. -/
  isInline : Bool
  /-- The property may be null as well. -/
  isLenient : Bool
  isLocalized : Bool
  deriving DecidableEq, Repr

/-- One arm of a conditional. -/
structure Interpretation where
  /-- The value of the discriminator that selects the arm. -/
  key : String
  /-- The property that holds the arm's value, if it is not named like the key. -/
  nestProperty : Option String
  type : TypeUse
  description : String
  isDeprecated : Bool
  deriving DecidableEq, Repr

/-- A member with dates of its own. -/
structure Dated (α : Type) where
  member : α
  /-- The first version with the member; the oldest one if none is given. -/
  since : Option Version
  /-- The first version without it again. -/
  stop : Option Version
  deriving DecidableEq, Repr

/-- A primitive under a name of its own. -/
structure AliasShape where
  name : QualifiedName
  primitive : Primitive
  description : String
  deriving DecidableEq, Repr

structure EnumValue where
  value : String
  description : Option String
  deriving DecidableEq, Repr

/-- A choice among listed values of a primitive. -/
structure EnumShape where
  name : QualifiedName
  underlying : Primitive
  values : List EnumValue
  description : String
  deriving DecidableEq, Repr

/-- An object; its properties are keyed by serial name. -/
structure RecordShape (π : Type) where
  name : QualifiedName
  properties : SortedMap String π
  description : String
  deriving DecidableEq

structure TupleElement where
  name : Name
  type : TypeUse
  description : String
  deriving DecidableEq, Repr

/-- A list of fixed length. -/
structure TupleShape where
  name : QualifiedName
  elements : List TupleElement
  description : String
  deriving DecidableEq, Repr

/-- A choice among interpretations by the value of a discriminator. -/
structure ConditionalShape (π ι : Type) where
  name : QualifiedName
  /-- The key of the discriminator. -/
  selector : String
  /-- The discriminator stands beside the object and not inside it. -/
  selectorInSideProperty : Bool
  /-- Each interpretation stands in a property of the object. -/
  interpretationInNestedProperty : Bool
  /-- The properties of every arm, by serial name. -/
  sharedProperties : SortedMap String π
  /-- The arms, by discriminator value. -/
  interpretations : SortedMap String ι
  description : String
  deriving DecidableEq

/-- The shape of a named type, with properties `π` and interpretations `ι`. -/
inductive Shape (π ι : Type)
  | alias (shape : AliasShape)
  | enumeration (shape : EnumShape)
  | record (shape : RecordShape π)
  | tuple (shape : TupleShape)
  | conditional (shape : ConditionalShape π ι)
  deriving DecidableEq

/-- A shape whose members may be dated. -/
abbrev Declaration := Shape (Dated Property) (Dated Interpretation)

/-- A shape at one version. -/
abbrev Schema := Shape Property Interpretation

inductive ShapeKind
  | alias
  | enumeration
  | record
  | tuple
  | conditional
  deriving DecidableEq, Repr

def ShapeKind.keyword : ShapeKind → String
  | .alias => "alias"
  | .enumeration => "enum"
  | .record => "record"
  | .tuple => "tuple"
  | .conditional => "conditional"

namespace Dated

variable {α : Type}

/-- A member that exists at every version. -/
def always (member : α) : Dated α := ⟨member, none, none⟩

/-- The member without its dates. -/
def undated (d : Dated α) : Dated α := always d.member

end Dated

namespace Shape

variable {π ι π' ι' : Type}

def name : Shape π ι → QualifiedName
  | .alias s => s.name
  | .enumeration s => s.name
  | .record s => s.name
  | .tuple s => s.name
  | .conditional s => s.name

def description : Shape π ι → String
  | .alias s => s.description
  | .enumeration s => s.description
  | .record s => s.description
  | .tuple s => s.description
  | .conditional s => s.description

def kind : Shape π ι → ShapeKind
  | .alias _ => .alias
  | .enumeration _ => .enumeration
  | .record _ => .record
  | .tuple _ => .tuple
  | .conditional _ => .conditional

/-- The properties that are found by serial name: those of a record, or those
shared by the arms of a conditional. -/
def properties? : Shape π ι → Option (SortedMap String π)
  | .record s => some s.properties
  | .conditional s => some s.sharedProperties
  | _ => none

/-- The shape with its members transformed. -/
def map (f : π → π') (g : ι → ι') : Shape π ι → Shape π' ι'
  | .alias s => .alias s
  | .enumeration s => .enumeration s
  | .record s => .record ⟨s.name, s.properties.map f, s.description⟩
  | .tuple s => .tuple s
  | .conditional s =>
    .conditional
      { name := s.name
        selector := s.selector
        selectorInSideProperty := s.selectorInSideProperty
        interpretationInNestedProperty := s.interpretationInNestedProperty
        sharedProperties := s.sharedProperties.map f
        interpretations := s.interpretations.map g
        description := s.description }

@[simp] theorem name_map (f : π → π') (g : ι → ι') (s : Shape π ι) :
    (s.map f g).name = s.name := by
  cases s <;> rfl

@[simp] theorem kind_map (f : π → π') (g : ι → ι') (s : Shape π ι) :
    (s.map f g).kind = s.kind := by
  cases s <;> rfl

/-- The shape with the dates of its members left out. -/
def resolved (d : Declaration) : Schema := d.map Dated.member Dated.member

end Shape

/-- The names that occur in a schema, in the order of its members. -/
def Shape.mentions : Schema → List Mention
  | .alias _ => []
  | .enumeration _ => []
  | .record s => s.properties.values.flatMap fun p => p.type.mentions
  | .tuple s => s.elements.flatMap fun e => e.type.mentions
  | .conditional s =>
    s.sharedProperties.values.flatMap (fun p => p.type.mentions) ++
      s.interpretations.values.flatMap fun i => i.type.mentions

end ApiChronicle
