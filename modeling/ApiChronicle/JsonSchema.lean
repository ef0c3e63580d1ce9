import ApiChronicle.Json
import ApiChronicle.Name

/-! # ApiChronicle.JsonSchema

**JSON Schema documents**, draft 2020-12, as far as exported types need them.

A schema is a list of keywords in the order in which they are written. References
carry the qualified name they refer to; only `toJson` turns it into a pointer to
an entry of `$defs`. Types whose names are written alike share one entry there,
the one that comes last.
-/

namespace ApiChronicle.JsonSchema

/-- A keyword of a schema with its value. -/
inductive Keyword
  | type (name : String)
  | ref (name : QualifiedName)
  | items (schema : List Keyword)
  | itemsInOrder (schemas : List (List Keyword))
  | minItems (count : Nat)
  | maxItems (count : Nat)
  | properties (schemas : List (String × List Keyword))
  | additionalProperties (schema : List Keyword)
  | propertyNames (schema : List Keyword)
  | required (keys : List String)
  | pattern (pattern : String)
  | constant (value : String)
  | enumeration (values : List Json)
  | allOf (schemas : List (List Keyword))
  | anyOf (schemas : List (List Keyword))
  | oneOf (schemas : List (List Keyword))
  | description (text : String)
  | deprecated
  deriving Repr

/-- The dialect the documents are written in. -/
def dialect : String := "https://json-schema.org/draft/2020-12/schema"

/-- Where a document defines the type with a name. -/
def pointer (name : QualifiedName) : String := "#/$defs/" ++ name.text

mutual

/-- A keyword as a member of its schema. -/
def Keyword.member : Keyword → String × Json
  | .type name => ("type", .string name)
  | .ref name => ("$ref", .string (pointer name))
  | .items schema => ("items", .object (members schema))
  | .itemsInOrder schemas => ("prefixItems", .array (arrayOf schemas))
  | .minItems count => ("minItems", .nat count)
  | .maxItems count => ("maxItems", .nat count)
  | .properties schemas => ("properties", .object (membersOf schemas))
  | .additionalProperties schema => ("additionalProperties", .object (members schema))
  | .propertyNames schema => ("propertyNames", .object (members schema))
  | .required keys => ("required", .array (keys.map .string))
  | .pattern pattern => ("pattern", .string pattern)
  | .constant value => ("const", .string value)
  | .enumeration values => ("enum", .array values)
  | .allOf schemas => ("allOf", .array (arrayOf schemas))
  | .anyOf schemas => ("anyOf", .array (arrayOf schemas))
  | .oneOf schemas => ("oneOf", .array (arrayOf schemas))
  | .description text => ("description", .string text)
  | .deprecated => ("deprecated", .bool true)

def members : List Keyword → List (String × Json)
  | [] => []
  | keyword :: rest => keyword.member :: members rest

def arrayOf : List (List Keyword) → List Json
  | [] => []
  | schema :: rest => .object (members schema) :: arrayOf rest

def membersOf : List (String × List Keyword) → List (String × Json)
  | [] => []
  | (key, schema) :: rest => (key, .object (members schema)) :: membersOf rest

end

end ApiChronicle.JsonSchema

namespace ApiChronicle

/-- A schema as the list of its keywords. -/
abbrev JsonSchema := List JsonSchema.Keyword

namespace JsonSchema

def toJson (schema : JsonSchema) : Json := .object (members schema)

/-- The schema that accepts null as well. -/
def nullable (schema : JsonSchema) : JsonSchema := [.anyOf [schema, [.type "null"]]]

/-- The schema with remarks that accept everything. -/
def annotated (schema : JsonSchema) (description : String) (isDeprecated : Bool) : JsonSchema :=
  schema ++ (if description.isEmpty then [] else [.description description]) ++
    (if isDeprecated then [.deprecated] else [])

/-- A schema together with the definitions it may refer to. -/
structure Document where
  root : JsonSchema
  definitions : List (QualifiedName × JsonSchema)

/-- A document as an object: its dialect, its root, its definitions. -/
def Document.toJson (d : Document) : Json :=
  .object
    (("$schema", .string dialect) :: members d.root ++
      [("$defs", .object (Listing.ofEntries
        (d.definitions.map fun (name, schema) => (name.text, JsonSchema.toJson schema))))])

end JsonSchema

end ApiChronicle
