import ApiChronicle.Shape
import ApiChronicle.Vocabulary.Written

/-! # ApiChronicle.Shape.Written

How type uses and schemas are **written in JSON documents**.

Names are written as their text. A schema is one object whose first member says
which kind of shape it is; members that are keyed in the schema are keyed in the
document, in the same order.
-/

namespace ApiChronicle

namespace Name

def toJson (n : Name) : Json := .string n.text

end Name

namespace QualifiedName

def toJson (q : QualifiedName) : Json := .string q.text

end QualifiedName

namespace TypeUse

/-- A type use is an object with its form as the only key. -/
def toJson : TypeUse → Json
  | .primitive p => .object [("primitive", p.toJson)]
  | .array elements nullableElements =>
    .object [("array", .object
      [("elements", elements.toJson), ("nullable_elements", .bool nullableElements)])]
  | .map keys values nullableValues =>
    .object [("map", .object
      [("keys", keys.toJson), ("values", values.toJson),
       ("nullable_values", .bool nullableValues)])]
  | .alias name => .object [("alias", name.toJson)]
  | .declaration name => .object [("reference", name.toJson)]

end TypeUse

def SortedMap.toJson {υ : Type} (value : υ → Json) (m : SortedMap String υ) : Json :=
  .object (m.entries.map fun e => (e.1, value e.2))

namespace Property

/-- A property with all its flags. -/
def toJson (p : Property) : Json :=
  .object
    [("name", p.name.toJson), ("type", p.type.toJson), ("serial_name", .string p.serialName),
     ("description", .string p.description), ("optionality", p.optionality.toJson),
     ("is_deprecated", .bool p.isDeprecated), ("is_inline", .bool p.isInline),
     ("is_lenient", .bool p.isLenient), ("is_localized", .bool p.isLocalized)]

end Property

namespace Interpretation

/-- An interpretation; the nesting property is left out if there is none. -/
def toJson (i : Interpretation) : Json :=
  .object (Json.presentMembers
    [("key", some (.string i.key)), ("nest_property", i.nestProperty.map .string),
     ("type", some i.type.toJson), ("is_deprecated", some (.bool i.isDeprecated)),
     ("description", some (.string i.description))])

end Interpretation

namespace EnumValue

/-- A value; its description is left out if there is none. -/
def toJson (v : EnumValue) : Json :=
  .object (Json.presentMembers
    [("value", some (.string v.value)), ("description", v.description.map .string)])

end EnumValue

namespace TupleElement

def toJson (e : TupleElement) : Json :=
  .object
    [("name", e.name.toJson), ("type", e.type.toJson), ("description", .string e.description)]

end TupleElement

namespace AliasShape

def members (s : AliasShape) : Listing Json :=
  [("name", s.name.toJson), ("primitive", s.primitive.toJson),
   ("description", .string s.description)]

end AliasShape

namespace Shape

/-- The members of a schema, its kind left out. -/
def members : Schema → Listing Json
  | .alias s => s.members
  | .enumeration s =>
    [("name", s.name.toJson), ("underlying", s.underlying.toJson),
     ("values", .array (s.values.map EnumValue.toJson)),
     ("description", .string s.description)]
  | .record s =>
    [("name", s.name.toJson), ("properties", s.properties.toJson Property.toJson),
     ("description", .string s.description)]
  | .tuple s =>
    [("name", s.name.toJson), ("elements", .array (s.elements.map TupleElement.toJson)),
     ("description", .string s.description)]
  | .conditional s =>
    [("name", s.name.toJson), ("selector", .string s.selector),
     ("selector_in_side_property", .bool s.selectorInSideProperty),
     ("interpretation_in_nested_property", .bool s.interpretationInNestedProperty),
     ("shared_properties", s.sharedProperties.toJson Property.toJson),
     ("interpretations", s.interpretations.toJson Interpretation.toJson),
     ("description", .string s.description)]

/-- A schema. -/
def toJson (s : Schema) : Json := .object (("kind", .string s.kind.keyword) :: members s)

end Shape

end ApiChronicle
