import ApiChronicle.JsonSchema.Export
import Mathlib.Data.List.Count

/-! # ApiChronicle.Proofs.SchemaAcceptance

**Which values a schema accepts**, as the dialect of the exported documents says it.

A schema accepts a value that meets all of its keywords. A keyword about objects, arrays or
texts is met by every other value, so a schema that wants an object has to say so. Two things
lie outside of a schema and are left to a `Reading`: the definitions its references lead to,
and the language of its patterns. Whatever is proved for all readings holds in every document
and for every language.

Of a list of schemas `oneOf` asks that exactly one accepts the value. When no two of them can,
it asks no more than `anyOf` (`accepts_oneOf_of_exclusive`).
-/

namespace ApiChronicle

/-! ### Values -/

/-- The exact value of a number. -/
def Binary64.toRat (x : Binary64) : Rat :=
  mkRat (if x.negative then -(x.magnitude.1 : Int) else x.magnitude.1) x.magnitude.2

/-- The exact value of a number. -/
def JsonNumber.toRat : JsonNumber → Rat
  | .integer n => n
  | .float x => x.toRat

namespace Json

/-- Whether a value has the type a schema names. A number without a fraction is an integer,
however it is written. -/
def hasType (name : String) : Json → Bool
  | .null => name = "null"
  | .bool _ => name = "boolean"
  | .number n => name = "number" || (name = "integer" && n.toRat.den = 1)
  | .string _ => name = "string"
  | .array _ => name = "array"
  | .object _ => name = "object"

/-- Whether a value is the text `s`. -/
def isText (s : String) : Json → Bool
  | .string t => t = s
  | _ => false

/-- Whether a value is the given scalar. Numbers are compared by what they are worth. Only
scalars are ever listed in an enumeration. -/
def isScalar : Json → Json → Bool
  | .null, .null => true
  | .bool a, .bool b => a = b
  | .number a, .number b => a.toRat = b.toRat
  | .string a, .string b => a = b
  | _, _ => false

end Json

namespace JsonSchema

/-! ### Keywords and schemas -/

/-- What lies outside of a schema. -/
structure Reading where
  /-- Whether the definition of a name accepts a value. -/
  accepts : QualifiedName → Json → Bool
  /-- Whether a text fits a pattern. -/
  fits : String → String → Bool

/-- The keys that `properties` names in a schema. -/
def namedKeys (schema : JsonSchema) : List String :=
  schema.flatMap fun
    | .properties schemas => schemas.map (·.1)
    | _ => []

/-- The number of elements that `prefixItems` covers in a schema. -/
def coveredItems : JsonSchema → Nat
  | [] => 0
  | .itemsInOrder schemas :: rest => schemas.length + coveredItems rest
  | _ :: rest => coveredItems rest

mutual

/-- Whether a value meets a keyword that stands in a schema. -/
def Keyword.accepts (reading : Reading) (schema : JsonSchema) (v : Json) : Keyword → Bool
  | .type name => v.hasType name
  | .ref name => reading.accepts name v
  | .items rest =>
    match v with
    | .array elements => (elements.drop schema.coveredItems).all fun e => meets reading rest e rest
    | _ => true
  | .itemsInOrder schemas =>
    match v with
    | .array elements => meetsInOrder reading elements schemas
    | _ => true
  | .minItems count =>
    match v with
    | .array elements => count ≤ elements.length
    | _ => true
  | .maxItems count =>
    match v with
    | .array elements => elements.length ≤ count
    | _ => true
  | .properties schemas =>
    match v with
    | .object _ => meetsMembers reading v schemas
    | _ => true
  | .additionalProperties other =>
    match v with
    | .object members =>
      members.all fun m => m.1 ∈ schema.namedKeys || meets reading other m.2 other
    | _ => true
  | .propertyNames names =>
    match v with
    | .object members => members.all fun m => meets reading names (.string m.1) names
    | _ => true
  | .required keys =>
    match v with
    | .object _ => keys.all fun key => (v.member? key).isSome
    | _ => true
  | .pattern pattern =>
    match v with
    | .string s => reading.fits pattern s
    | _ => true
  | .constant value => v.isText value
  | .enumeration values => values.any v.isScalar
  | .allOf schemas => (verdicts reading v schemas).all id
  | .anyOf schemas => (verdicts reading v schemas).any id
  | .oneOf schemas => (verdicts reading v schemas).count true = 1
  | .description _ => true
  | .deprecated => true

/-- Whether a value meets keywords that stand in a schema. -/
def meets (reading : Reading) (schema : JsonSchema) (v : Json) : List Keyword → Bool
  | [] => true
  | keyword :: rest => keyword.accepts reading schema v && meets reading schema v rest

/-- Whether each schema of a list accepts a value. -/
def verdicts (reading : Reading) (v : Json) : List (List Keyword) → List Bool
  | [] => []
  | schema :: rest => meets reading schema v schema :: verdicts reading v rest

/-- Whether elements are accepted by schemas one by one, as far as there are both. -/
def meetsInOrder (reading : Reading) : List Json → List (List Keyword) → Bool
  | e :: elements, schema :: rest =>
    meets reading schema e schema && meetsInOrder reading elements rest
  | _, _ => true

/-- Whether the members that a table of schemas names are accepted, where they are present. -/
def meetsMembers (reading : Reading) (v : Json) : List (String × List Keyword) → Bool
  | [] => true
  | (key, schema) :: rest =>
    (match v.member? key with
      | some value => meets reading schema value schema
      | none => true) && meetsMembers reading v rest

end

/-- Whether a schema accepts a value. -/
def accepts (reading : Reading) (schema : JsonSchema) (v : Json) : Bool :=
  meets reading schema v schema

/-! ### Remarks -/

section Remarks

variable {reading : Reading} {schema schema' : JsonSchema} {v : Json}

theorem coveredItems_append (schema rest : JsonSchema) :
    coveredItems (schema ++ rest) = coveredItems schema + coveredItems rest := by
  induction schema with
  | nil => simp [coveredItems]
  | cons keyword schema ih => cases keyword <;> simp [coveredItems, ih, Nat.add_assoc]

theorem meets_append (keywords rest : List Keyword) :
    meets reading schema v (keywords ++ rest) =
      (meets reading schema v keywords && meets reading schema v rest) := by
  induction keywords with
  | nil => simp [meets]
  | cons keyword keywords ih => simp [meets, ih, Bool.and_assoc]

/-- Of the schema around it a keyword sees the keys and the elements that are covered there. -/
theorem meets_congr (hkeys : schema.namedKeys = schema'.namedKeys)
    (hitems : schema.coveredItems = schema'.coveredItems) (keywords : List Keyword) :
    meets reading schema v keywords = meets reading schema' v keywords := by
  induction keywords with
  | nil => rfl
  | cons keyword keywords ih =>
      cases keyword <;> simp only [meets, Keyword.accepts, hkeys, hitems, ih]

/-- Remarks play no part in what a schema accepts. -/
theorem accepts_annotated {description : String} {isDeprecated : Bool} :
    (annotated schema description isDeprecated).accepts reading v = schema.accepts reading v := by
  have hremarks : ∀ remarks : JsonSchema, remarks.namedKeys = [] → remarks.coveredItems = 0 →
      (∀ schema : JsonSchema, meets reading schema v remarks = true) →
      accepts reading (schema ++ remarks) v = accepts reading schema v := by
    intro remarks hkeys hitems hmeets
    rw [accepts, accepts, meets_append, hmeets, Bool.and_true]
    refine meets_congr ?_ ?_ schema
    · rw [namedKeys, List.flatMap_append, ← namedKeys, ← namedKeys, hkeys, List.append_nil]
    · rw [coveredItems_append, hitems, Nat.add_zero]
  rw [annotated, List.append_assoc]
  by_cases hdescription : description.isEmpty = true <;> cases isDeprecated <;>
    refine hremarks _ ?_ ?_ fun schema => ?_ <;>
    simp [hdescription, namedKeys, coveredItems, meets, Keyword.accepts]

end Remarks

/-! ### Schemas of one keyword -/

section Combination

variable {reading : Reading} {v : Json} {schemas : List JsonSchema}

theorem verdicts_eq_map (reading : Reading) (v : Json) (schemas : List JsonSchema) :
    verdicts reading v schemas = schemas.map fun schema => accepts reading schema v := by
  induction schemas with
  | nil => rfl
  | cons schema rest ih => rw [verdicts, ih, List.map_cons, accepts]

theorem accepts_allOf :
    accepts reading [.allOf schemas] v = true ↔
      ∀ schema ∈ schemas, accepts reading schema v = true := by
  simp [accepts, meets, Keyword.accepts, verdicts_eq_map]

theorem accepts_anyOf :
    accepts reading [.anyOf schemas] v = true ↔
      ∃ schema ∈ schemas, accepts reading schema v = true := by
  simp [accepts, meets, Keyword.accepts, verdicts_eq_map]

/-- Of schemas that exclude each other at most one accepts a value. -/
theorem count_verdicts_le_one_of_exclusive
    (hexclusive : schemas.Pairwise fun schema other =>
      ¬ (accepts reading schema v = true ∧ accepts reading other v = true)) :
    (verdicts reading v schemas).count true ≤ 1 := by
  induction hexclusive with
  | nil => exact Nat.zero_le 1
  | @cons schema rest hschema hrest ih =>
    rw [verdicts_eq_map] at ih
    rw [verdicts_eq_map, List.map_cons, List.count_cons]
    cases hv : accepts reading schema v with
    | false => simpa using ih
    | true =>
      -- every verdict after an accepting schema is a rejection
      have hnone : (rest.map fun other => accepts reading other v).count true = 0 :=
        List.count_eq_zero.mpr fun hmem => by
          obtain ⟨other, hother, haccepts⟩ := List.mem_map.mp hmem
          exact hschema other hother ⟨hv, haccepts⟩
      simp [hnone]

/-- Of schemas that exclude each other exactly one accepts a value as soon as any of them
does. -/
theorem accepts_oneOf_of_exclusive
    (hexclusive : schemas.Pairwise fun schema other =>
      ¬ (accepts reading schema v = true ∧ accepts reading other v = true)) :
    accepts reading [.oneOf schemas] v = true ↔ accepts reading [.anyOf schemas] v = true := by
  have hle := count_verdicts_le_one_of_exclusive hexclusive
  have hone : accepts reading [.oneOf schemas] v = true ↔
      (verdicts reading v schemas).count true = 1 := by
    simp [accepts, meets, Keyword.accepts]
  calc accepts reading [.oneOf schemas] v = true
      ↔ 0 < (verdicts reading v schemas).count true := by rw [hone]; omega
    _ ↔ true ∈ verdicts reading v schemas := List.count_pos_iff
    _ ↔ accepts reading [.anyOf schemas] v = true := by
      rw [accepts_anyOf, verdicts_eq_map, List.mem_map]

end Combination

end JsonSchema

end ApiChronicle
