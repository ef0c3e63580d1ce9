import ApiChronicle.Api
import ApiChronicle.Json.Number
import ApiChronicle.JsonSchema

/-! # ApiChronicle.JsonSchema.Export

**Exporting** the types of an API as JSON Schemas.

Every type of the API becomes a definition, and uses of types refer to
definitions by name. A record is an object; the type of an inline property takes
part through `allOf`, because its members stand in the object itself. A
conditional chooses among its arms; an arm is guarded by the value of the
discriminator, unless the discriminator stands outside the object.
-/

namespace ApiChronicle

open Json.NumberLiteral (maxNegated)

inductive ExportError
  /-- The API has no type of this name at the version. -/
  | unknownType (name : String) (version : Version)
  deriving DecidableEq, Repr

def ExportError.message : ExportError → String
  | unknownType name version => s!"type {name} is not part of schema version {version.text}"

namespace Primitive

/-- The type of the primitive's values. -/
def jsonType : Primitive → String
  | boolean => "boolean"
  | integer | bitfield | integerId => "integer"
  | decimal => "number"
  | string | stringId => "string"

/-- Whether the values of an enumeration of this primitive are integers. -/
def enumeratesIntegers : Primitive → Bool
  | integer | integerId => true
  | _ => false

end Primitive

namespace TypeUse

def integerPattern : String := "^-?[0-9]+$"

/-- Whether a map with keys of this type restricts how they are written. -/
def isIntegerKey : TypeUse → Bool
  | primitive .integer | primitive .integerId => true
  | _ => false

/-- The schema of the values at one place. -/
def jsonSchema : TypeUse → JsonSchema
  | .primitive p => [.type p.jsonType]
  | .array elements nullableElements =>
    let items := elements.jsonSchema
    [.type "array", .items (if nullableElements then JsonSchema.nullable items else items)]
  | .map keys values nullableValues =>
    let schema := values.jsonSchema
    [.type "object",
     .additionalProperties (if nullableValues then JsonSchema.nullable schema else schema)] ++
      (if keys.isIntegerKey then [.propertyNames [.pattern integerPattern]] else [])
  | .alias name => [.ref name]
  | .declaration name => [.ref name]

end TypeUse

/-- The integer of 64 bits a text denotes: a sign if there is one, then decimal
digits. -/
def integerOfText? (text : String) : Option Int :=
  let magnitude? (digits : List Char) : Option Nat :=
    if digits.isEmpty || !digits.all Char.isDigit then none
    else some (digits.foldl (fun n c => n * 10 + (c.toNat - '0'.toNat)) 0)
  match text.toList with
  | '-' :: digits => do
    let n ← magnitude? digits
    if n ≤ maxNegated then return -(n : Int) else none
  | '+' :: digits => do
    let n ← magnitude? digits
    if n < maxNegated then return (n : Int) else none
  | digits => do
    let n ← magnitude? digits
    if n < maxNegated then return (n : Int) else none

namespace EnumShape

/-- A listed value. Values of an enumeration of integers are integers where their
text is one. -/
def jsonValue (underlying : Primitive) (v : EnumValue) : Json :=
  if underlying.enumeratesIntegers then
    match integerOfText? v.value with
    | some n => .int n
    | none => .string v.value
  else .string v.value

def jsonSchema (s : EnumShape) : JsonSchema :=
  [.type s.underlying.jsonType, .enumeration (s.values.map (jsonValue s.underlying))]

end EnumShape

namespace TupleShape

def jsonSchema (s : TupleShape) : JsonSchema :=
  [.type "array",
   .itemsInOrder (s.elements.map fun e => JsonSchema.annotated e.type.jsonSchema e.description false),
   .minItems s.elements.length, .maxItems s.elements.length]

end TupleShape

namespace Property

/-- The schema of the values of a property that stands under its own key. -/
def jsonSchema (p : Property) : JsonSchema :=
  let schema := p.type.jsonSchema
  JsonSchema.annotated (if p.isLenient then JsonSchema.nullable schema else schema)
    p.description p.isDeprecated

end Property

/-- The keywords of an object with the given properties, inline ones left out. -/
def objectKeywords (properties : SortedMap String Property) : JsonSchema :=
  let own := properties.entries.filter fun e => !e.2.isInline
  let required := (own.filter fun e => e.2.optionality.isRequired).map (·.1)
  [.type "object", .properties (own.map fun e => (e.1, e.2.jsonSchema))] ++
    (if required.isEmpty then [] else [.required required])

def inlineSchemas (properties : SortedMap String Property) : List JsonSchema :=
  (properties.values.filter (·.isInline)).map fun p => p.type.jsonSchema

namespace RecordShape

def jsonSchema (s : RecordShape Property) : JsonSchema :=
  let inline := inlineSchemas s.properties
  objectKeywords s.properties ++ (if inline.isEmpty then [] else [.allOf inline])

end RecordShape

namespace ConditionalShape

/-- What the payload of an interpretation looks like. -/
def armBody (c : ConditionalShape Property Interpretation) (i : Interpretation) : JsonSchema :=
  let body : JsonSchema :=
    if c.interpretationInNestedProperty then
      let key := i.nestProperty.getD i.key
      [.properties [(key, i.type.jsonSchema)], .required [key]]
    else i.type.jsonSchema
  JsonSchema.annotated body i.description i.isDeprecated

/-- The condition that the discriminator selects an interpretation. -/
def guard (c : ConditionalShape Property Interpretation) (i : Interpretation) : JsonSchema :=
  [.properties [(c.selector, [.constant i.key])], .required [c.selector]]

def arm (c : ConditionalShape Property Interpretation) (i : Interpretation) : JsonSchema :=
  if c.selectorInSideProperty then c.armBody i else [.allOf [c.guard i, c.armBody i]]

/-- The schema of the choice among the interpretations. A discriminator outside
the object cannot tell them apart, so any of them may hold. -/
def choice (c : ConditionalShape Property Interpretation) : JsonSchema :=
  let arms := c.interpretations.values.map c.arm
  if c.selectorInSideProperty then [.anyOf arms] else [.oneOf arms]

def jsonSchema (c : ConditionalShape Property Interpretation) : JsonSchema :=
  objectKeywords c.sharedProperties ++ [.allOf (inlineSchemas c.sharedProperties ++ [c.choice])]

end ConditionalShape

namespace Shape

/-- The schema of a type, without its description. -/
def bareJsonSchema : Schema → JsonSchema
  | .alias s => [.type s.primitive.jsonType]
  | .enumeration s => s.jsonSchema
  | .record s => s.jsonSchema
  | .tuple s => s.jsonSchema
  | .conditional s => s.jsonSchema

/-- The schema of a type. -/
def jsonSchema (s : Schema) : JsonSchema :=
  JsonSchema.annotated (bareJsonSchema s) s.description false

end Shape

namespace Api

/-- A document with the types of the API as definitions. -/
def document (api : Api) (root : JsonSchema) : JsonSchema.Document :=
  ⟨root, api.types.entries.map fun e => (e.1, Shape.jsonSchema e.2)⟩

/-- The schema of the type whose name is written like this. -/
def typeDocument (api : Api) (text : String) : Except ExportError JsonSchema.Document :=
  match api.findType? text with
  | some (name, _) => .ok (api.document [.ref name])
  | none => .error (.unknownType text api.version)

/-- The schema of the response of a query. -/
def queryDocument (api : Api) (q : ResolvedQuery) : JsonSchema.Document :=
  api.document q.schema.jsonSchema

end Api

end ApiChronicle
