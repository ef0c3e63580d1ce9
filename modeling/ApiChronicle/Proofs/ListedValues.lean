import ApiChronicle.Proofs.SchemaAcceptance
import ApiChronicle.Proofs.SchemaApplicators

/-! # ApiChronicle.Proofs.ListedValues

**Whether an exported enumeration accepts the values it lists.**

Two keywords of the schema of an enumeration speak of its primitive. `type` names the type of the
primitive's values, and `enum` lists values, which are integers for some primitives and texts for
all others. A schema accepts what meets both (`EnumShape.accepts_iff`), so a listed value is
accepted if it has the type that is named (`EnumShape.accepts_jsonValue`).

The two keywords agree on integers, on texts and on IDs. Truth values, decimals and bit fields
are listed as texts although `type` asks for something else (`Primitive.listsByType_iff`), so an
enumeration of one of these accepts nothing at all, whatever it lists
(`EnumShape.listed_values_accepted`).
-/

namespace ApiChronicle

/-! ### Literals -/

namespace Primitive

/-- Whether a text writes a value of the primitive. -/
def hasLiteral (p : Primitive) (text : String) : Bool :=
  match p with
  | boolean => text = "true" || text = "false"
  | integer | integerId | bitfield => (integerOfText? text).isSome
  | decimal => (Json.NumberLiteral.scan? text.toList).any fun (_, rest) => rest.isEmpty
  | string | stringId => true

/-- Whether enumerations of the primitive list values of the type that they name. -/
def listsByType (p : Primitive) : Bool :=
  p.jsonType = if p.enumeratesIntegers then "integer" else "string"

theorem listsByType_iff {p : Primitive} :
    p.listsByType = true ↔ p ∉ [.boolean, .decimal, .bitfield] := by
  cases p <;> decide

end Primitive

/-! ### Scalars -/

namespace Json

/-- What counts as one scalar has the same types. -/
theorem hasType_of_isScalar {v w : Json} (h : v.isScalar w = true) (name : String) :
    v.hasType name = w.hasType name := by
  cases v <;> cases w <;> simp_all [isScalar, hasType]

theorem hasType_int {n : Int} {name : String} :
    (int n).hasType name = true ↔ name = "number" ∨ name = "integer" := by
  have hden : (JsonNumber.integer n).toRat.den = 1 := rfl
  simp [int, hasType, hden]

theorem hasType_string {s name : String} : (string s).hasType name = true ↔ name = "string" := by
  simp [hasType]

/-- A schema that names a type and lists values of this type only. -/
def ListsByType (schema : Json) : Prop :=
  ∃ name values, schema.member? "type" = some (.string name) ∧
    schema.member? "enum" = some (.array values) ∧ ∀ v ∈ values, v.hasType name = true

end Json

/-! ### Enumerations -/

namespace EnumShape

open JsonSchema (Reading accepts)

variable {s : EnumShape} {p : Primitive} {e : EnumValue} {v : Json} {reading : Reading}

/-- The exported schema of an enumeration. -/
def exported (s : EnumShape) : JsonSchema := Shape.jsonSchema (.enumeration s)

theorem isScalar_jsonValue (p : Primitive) (e : EnumValue) :
    (jsonValue p e).isScalar (jsonValue p e) = true := by
  unfold jsonValue
  split
  · split <;> simp [Json.int, Json.isScalar]
  · simp [Json.isScalar]

/-- Values are listed as integers if they are integers that the enumeration is one of, and as
texts otherwise. -/
theorem hasType_jsonValue_iff (p : Primitive) (e : EnumValue) :
    (jsonValue p e).hasType p.jsonType = true ↔
      p.listsByType = true ∧
        (p.enumeratesIntegers = true → (integerOfText? e.value).isSome = true) := by
  unfold jsonValue
  cases hinteger : integerOfText? e.value with
  | none => cases p <;> simp [Primitive.enumeratesIntegers, Primitive.listsByType,
      Primitive.jsonType, Json.hasType_string]
  | some n => cases p <;> simp [Primitive.enumeratesIntegers, Primitive.listsByType,
      Primitive.jsonType, Json.hasType_string, Json.hasType_int]

/-- For literals nothing but the primitive matters. -/
theorem hasType_jsonValue_of_hasLiteral (h : p.hasLiteral e.value = true) :
    (jsonValue p e).hasType p.jsonType = p.listsByType := by
  have hinteger : p.enumeratesIntegers = true → (integerOfText? e.value).isSome = true := by
    cases p <;> simp_all [Primitive.enumeratesIntegers, Primitive.hasLiteral]
  rw [Bool.eq_iff_iff, hasType_jsonValue_iff]
  exact and_iff_left hinteger

/-- An enumeration accepts what counts as a listed value that has the type it names. -/
theorem accepts_iff :
    accepts reading s.exported v = true ↔
      ∃ e ∈ s.values, v.isScalar (jsonValue s.underlying e) = true ∧
        (jsonValue s.underlying e).hasType s.underlying.jsonType = true := by
  have hboth : accepts reading s.exported v = true ↔
      v.hasType s.underlying.jsonType = true ∧
        ∃ e ∈ s.values, v.isScalar (jsonValue s.underlying e) = true := by
    rw [exported, Shape.jsonSchema, JsonSchema.accepts_annotated]
    simp [Shape.bareJsonSchema, jsonSchema, accepts, JsonSchema.meets, JsonSchema.Keyword.accepts]
  rw [hboth]
  constructor
  · intro h
    obtain ⟨htype, e, he, hscalar⟩ := h
    exact ⟨e, he, hscalar, Json.hasType_of_isScalar hscalar _ ▸ htype⟩
  · intro h
    obtain ⟨e, he, hscalar, htype⟩ := h
    exact ⟨(Json.hasType_of_isScalar hscalar _).trans htype, e, he, hscalar⟩

/-- A listed value is accepted if it has the type that is named. -/
theorem accepts_jsonValue (he : e ∈ s.values) :
    accepts reading s.exported (jsonValue s.underlying e) =
      (jsonValue s.underlying e).hasType s.underlying.jsonType := by
  rw [Bool.eq_iff_iff, accepts_iff]
  constructor
  · intro h
    obtain ⟨e', -, hscalar, htype⟩ := h
    exact (Json.hasType_of_isScalar hscalar _).trans htype
  · intro htype
    exact ⟨e, he, isScalar_jsonValue _ _, htype⟩

/-- The two keywords as a reader finds them in the document. -/
theorem listsByType_toJson_iff :
    s.exported.toJson.ListsByType ↔
      ∀ e ∈ s.values, (jsonValue s.underlying e).hasType s.underlying.jsonType = true := by
  have htype : s.exported.toJson.member? "type" = some (.string s.underlying.jsonType) := rfl
  have henum : s.exported.toJson.member? "enum" =
      some (.array (s.values.map (jsonValue s.underlying))) := rfl
  simp [Json.ListsByType, htype, henum]

/-- **Which enumerations accept the values they list.** Let the texts of an enumeration be
literals of its primitive. If these are integers, texts or IDs, every value is listed in the type
that the schema names, and the schema accepts it. If they are truth values, decimals or bit
fields, no value is listed in that type, and the schema accepts nothing. -/
theorem listed_values_accepted
    (hliteral : ∀ e ∈ s.values, s.underlying.hasLiteral e.value = true) :
    (s.exported.toJson.ListsByType ↔
      s.values = [] ∨ s.underlying ∉ [.boolean, .decimal, .bitfield]) ∧
    ∀ reading,
      (s.underlying ∉ [.boolean, .decimal, .bitfield] →
        ∀ e ∈ s.values, accepts reading s.exported (jsonValue s.underlying e) = true) ∧
      (s.underlying ∈ [.boolean, .decimal, .bitfield] →
        ∀ v, accepts reading s.exported v = false) := by
  have htype (e : EnumValue) (he : e ∈ s.values) :=
    hasType_jsonValue_of_hasLiteral (hliteral e he)
  refine ⟨?_, fun reading => ⟨fun hlists e he => ?_, fun hother v => ?_⟩⟩
  · rw [listsByType_toJson_iff, ← Primitive.listsByType_iff]
    cases hvalues : s.values with
    | nil => simp
    | cons e rest =>
        rw [hvalues] at htype
        constructor
        · intro h
          exact Or.inr ((htype e List.mem_cons_self).symm.trans (h e List.mem_cons_self))
        · intro h e' he'
          exact (htype e' he').trans (h.resolve_left (List.cons_ne_nil _ _))
  · rw [accepts_jsonValue he, htype e he]
    exact Primitive.listsByType_iff.mpr hlists
  · refine Bool.eq_false_iff.mpr fun haccepts => ?_
    obtain ⟨e, he, -, hlisted⟩ := accepts_iff.mp haccepts
    exact Primitive.listsByType_iff.mp ((htype e he).symm.trans hlisted) hother

/-- An enumeration of IDs, with a sign that is not needed. -/
def sizes : EnumShape where
  name := .declaration [] (Name.derive "Size")
  underlying := .integerId
  values := [⟨"1", none⟩, ⟨"+2", some "The usual one."⟩]
  description := "A size."

theorem listed_values_accepted_sizes :
    (∀ e ∈ sizes.values, sizes.underlying.hasLiteral e.value = true) ∧
    sizes.exported.toJson.ListsByType ∧
    ∀ reading, accepts reading sizes.exported (.int 1) = true ∧
      accepts reading sizes.exported (.int 2) = true := by
  have hliteral : ∀ e ∈ sizes.values, sizes.underlying.hasLiteral e.value = true := by
    decide +kernel
  have hlists : sizes.underlying ∉ [.boolean, .decimal, .bitfield] := by decide
  obtain ⟨hlisted, haccepts⟩ := listed_values_accepted hliteral
  refine ⟨hliteral, hlisted.mpr (Or.inr hlists), fun reading => ?_⟩
  have hall := (haccepts reading).1 hlists
  exact ⟨hall ⟨"1", none⟩ (by decide), hall ⟨"+2", some "The usual one."⟩ (by decide)⟩

end EnumShape

/-- Flags of a bit field. -/
def Scope.flags : EnumShape where
  name := .declaration [] (Name.derive "Flags")
  underlying := .bitfield
  values := [⟨"1", none⟩]
  description := ""

/-- Flags of a bit field can be enumerated. Their numbers are listed as texts where the schema
asks for integers, so the schema accepts nothing. -/
theorem Scope.flags_exported :
    ∃ r t api, (top.declareEnum "Flags" .bitfield flags.values "").run .empty = .ok t r ∧
      (ApiDefinition.serving r t).build (.all .classic) = .ok api ∧
      api.types.get? flags.name = some (.enumeration flags) ∧
      (∀ e ∈ flags.values, flags.underlying.hasLiteral e.value = true) ∧
      ¬flags.exported.toJson.ListsByType ∧
      ∀ reading v, JsonSchema.accepts reading flags.exported v = false := by
  obtain ⟨r, t, api, hdeclare, hbuild, hflags⟩ :=
    ApiDefinition.exists_serving
      ((top.declareEnum "Flags" .bitfield flags.values "").run .empty) .classic
      (fun api => api.types.get? flags.name = some (.enumeration flags)) (by decide +kernel)
  have hone : ¬(EnumShape.jsonValue flags.underlying ⟨"1", none⟩).hasType
      flags.underlying.jsonType = true := by decide +kernel
  refine ⟨r, t, api, hdeclare, hbuild, hflags, by decide +kernel, fun hlists => ?_,
    fun reading v => Bool.eq_false_iff.mpr fun haccepts => ?_⟩
  · exact hone (EnumShape.listsByType_toJson_iff.mp hlists _ List.mem_cons_self)
  · obtain ⟨e, he, -, htype⟩ := EnumShape.accepts_iff.mp haccepts
    obtain rfl := List.mem_singleton.mp he
    exact hone htype

end ApiChronicle
