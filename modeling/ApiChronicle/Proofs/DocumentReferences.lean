import ApiChronicle.Proofs.DisplayNames

/-! # ApiChronicle.Proofs.DocumentReferences

**Where the references of an exported document lead.**

`Json.refs` reads the references off a finished document, as a client would: the text of
every `$ref` at any depth, whatever keyword it stands under. The types say independently
which names to expect there (`TypeUse.valueNames`, `Shape.writtenUses`), and the two lists
agree entry by entry, so each reference can be traced to the type use it was written for.

Its target exists because the types of a built API are all that its roots lead to
(`ApiDefinition.contains_types_of_build`). It is the right one because types with different
texts do not replace one another in `$defs`; without that assumption a reference still leads
somewhere, but perhaps to another type of the same text.
-/

namespace ApiChronicle

/-! ### References of a JSON value -/

namespace Json

/-- The reference that a member is, if it is one. A property may be called `$ref` as well;
then its value is a schema and no text. -/
def refOf (key : String) : Json → List String
  | .string text => if key = "$ref" then [text] else []
  | _ => []

mutual

/-- The references anywhere in a value, in the order in which they are written. -/
def refs : Json → List String
  | .array elements => elementRefs elements
  | .object members => memberRefs members
  | _ => []

def elementRefs : List Json → List String
  | [] => []
  | value :: rest => value.refs ++ elementRefs rest

def memberRefs : List (String × Json) → List String
  | [] => []
  | (key, value) :: rest => refOf key value ++ value.refs ++ memberRefs rest

end

theorem elementRefs_eq (elements : List Json) : elementRefs elements = elements.flatMap refs := by
  induction elements with
  | nil => rfl
  | cons value rest ih => rw [elementRefs, ih, List.flatMap_cons]

theorem memberRefs_eq (members : List (String × Json)) :
    memberRefs members = members.flatMap fun e => refOf e.1 e.2 ++ e.2.refs := by
  induction members with
  | nil => rfl
  | cons e rest ih =>
      obtain ⟨key, value⟩ := e
      rw [memberRefs, ih, List.flatMap_cons]

theorem memberRefs_append (a b : List (String × Json)) :
    memberRefs (a ++ b) = memberRefs a ++ memberRefs b := by
  simp only [memberRefs_eq, List.flatMap_append]

/-- The definition that a document has under a key. -/
def definition? (document : Json) (key : String) : Option Json :=
  (document.member? "$defs").bind fun definitions => definitions.member? key

end Json

/-- An entry is found under its name if no other has the name. -/
theorem Listing.lookup_of_mem {α : Type} {entries : Listing α} {name : String} {value : α}
    (h : (entries.map Prod.fst).Nodup) (hmem : (name, value) ∈ entries) :
    entries.lookup name = some value := by
  obtain ⟨before, after, rfl⟩ := List.append_of_mem hmem
  refine List.lookup_eq_some_iff.mpr ⟨before, after, rfl, fun e he => bne_iff_ne.mpr ?_⟩
  rintro rfl
  rw [List.map_append, List.map_cons, List.nodup_middle] at h
  exact (List.nodup_cons.mp h).1 (List.mem_append_left _ (List.mem_map.mpr ⟨e, he, rfl⟩))

/-! ### Keywords and the schemas they apply -/

namespace JsonSchema

theorem members_eq (schema : JsonSchema) : members schema = schema.map Keyword.member := by
  induction schema with
  | nil => rfl
  | cons keyword rest ih => rw [members, ih, List.map_cons]

theorem arrayOf_eq (schemas : List JsonSchema) : arrayOf schemas = schemas.map toJson := by
  induction schemas with
  | nil => rfl
  | cons schema rest ih => rw [arrayOf, ih, List.map_cons, toJson]

theorem membersOf_eq (schemas : List (String × JsonSchema)) :
    membersOf schemas = schemas.map fun e => (e.1, toJson e.2) := by
  induction schemas with
  | nil => rfl
  | cons e rest ih =>
      obtain ⟨key, schema⟩ := e
      rw [membersOf, ih, List.map_cons, toJson]

/-- The schemas a keyword applies, in the order in which they are written. -/
@[simp] def Keyword.applied : Keyword → List JsonSchema
  | .items schema | .additionalProperties schema | .propertyNames schema => [schema]
  | .itemsInOrder schemas | .allOf schemas | .anyOf schemas | .oneOf schemas => schemas
  | .properties schemas => schemas.map Prod.snd
  | _ => []

/-- The references that are written for a keyword: its own, or those of the schemas it
applies. -/
@[simp] def Keyword.refs : Keyword → List String
  | .ref name => [pointer name]
  | .enumeration values => values.flatMap Json.refs
  | keyword => keyword.applied.flatMap fun schema => schema.toJson.refs

theorem Keyword.refs_member (keyword : Keyword) :
    Json.refOf keyword.member.1 keyword.member.2 ++ keyword.member.2.refs = keyword.refs := by
  cases keyword with
  | required keys =>
      induction keys with
      | nil => rfl
      | cons key rest ih => exact ih
  | _ =>
      simp [member, Json.refOf, Json.refs, Json.nat, Json.elementRefs_eq,
        Json.memberRefs_eq, members_eq, arrayOf_eq, membersOf_eq, toJson, List.flatMap_map]

/-- No keyword is written where a document has its definitions. -/
theorem Keyword.member_ne_defs (keyword : Keyword) : keyword.member.1 ≠ "$defs" := by
  cases keyword <;> simp [member]

/-- The references of a schema are those of its keywords. -/
theorem refs_toJson (schema : JsonSchema) : schema.toJson.refs = schema.flatMap Keyword.refs := by
  rw [toJson, Json.refs, Json.memberRefs_eq, members_eq, List.flatMap_map]
  exact List.flatMap_congr fun keyword _ => keyword.refs_member

@[simp] theorem refs_append (a b : JsonSchema) :
    (toJson (a ++ b)).refs = a.toJson.refs ++ b.toJson.refs := by
  simp [refs_toJson]

@[simp] theorem refs_cons (keyword : Keyword) (rest : JsonSchema) :
    (toJson (keyword :: rest)).refs = keyword.refs ++ rest.toJson.refs := by
  simp [refs_toJson]

@[simp] theorem refs_nil : (toJson []).refs = [] := rfl

@[simp] theorem refs_nullable (schema : JsonSchema) :
    (nullable schema).toJson.refs = schema.toJson.refs := by
  simp [nullable]

/-- Remarks refer to nothing. -/
@[simp] theorem refs_annotated (schema : JsonSchema) (description : String)
    (isDeprecated : Bool) :
    (annotated schema description isDeprecated).toJson.refs = schema.toJson.refs := by
  unfold annotated
  by_cases hdescription : description.isEmpty = true <;> cases isDeprecated <;>
    simp [hdescription]

end JsonSchema

open JsonSchema (pointer)

/-! ### Names that a use is written with -/

namespace TypeUse

/-- The names of the types that values have at one place, from left to right. The keys of a
map are texts in every document, so their type is not written. -/
def valueNames : TypeUse → List QualifiedName
  | .primitive _ => []
  | .array elements _ => elements.valueNames
  | .map _ values _ => values.valueNames
  | .alias name => [name]
  | .declaration name => [name]

theorem names_of_mem_valueNames {t : TypeUse} {n : QualifiedName} (h : n ∈ t.valueNames) :
    t.Names n := by
  induction t with
  | primitive _ => exact absurd h List.not_mem_nil
  | array elements _ ih => exact .elements (ih h)
  | map keys values _ _ ih => exact .values (ih h)
  | «alias» name =>
      obtain rfl := List.mem_singleton.mp h
      exact .alias
  | declaration name =>
      obtain rfl := List.mem_singleton.mp h
      exact .declaration

/-- The schema of a use refers to the names it is written with. -/
@[simp] theorem refs_jsonSchema (t : TypeUse) :
    t.jsonSchema.toJson.refs = t.valueNames.map pointer := by
  induction t with
  | primitive _ => rfl
  | array elements nullable ih =>
      cases nullable <;>
        simp [jsonSchema, valueNames, ih]
  | map keys values nullable _ ih =>
      cases nullable <;> cases hkeys : keys.isIntegerKey <;>
        simp [jsonSchema, valueNames, ih,
          hkeys]
  | «alias» _ => rfl
  | declaration _ => rfl

end TypeUse

/-- The uses that a table of properties is written with: first those under their own keys, in
the order of the keys, then the inline ones. -/
def writtenProperties (properties : SortedMap String Property) : List TypeUse :=
  (properties.values.filter fun p => !p.isInline).map Property.type ++
    (properties.values.filter fun p => p.isInline).map Property.type

theorem mem_writtenProperties {properties : SortedMap String Property} {t : TypeUse} :
    t ∈ writtenProperties properties ↔ ∃ p ∈ properties.values, p.type = t := by
  simp only [writtenProperties, List.mem_append, List.mem_map, List.mem_filter]
  constructor
  · rintro (⟨p, ⟨hp, -⟩, rfl⟩ | ⟨p, ⟨hp, -⟩, rfl⟩) <;> exact ⟨p, hp, rfl⟩
  · rintro ⟨p, hp, rfl⟩
    cases hinline : p.isInline
    · exact Or.inl ⟨p, ⟨hp, by simp [hinline]⟩, rfl⟩
    · exact Or.inr ⟨p, ⟨hp, hinline⟩, rfl⟩

namespace Shape

/-- The uses that a schema is written with, in order. -/
def writtenUses : Schema → List TypeUse
  | .alias _ | .enumeration _ => []
  | .record s => writtenProperties s.properties
  | .tuple s => s.elements.map TupleElement.type
  | .conditional s =>
    writtenProperties s.sharedProperties ++ s.interpretations.values.map Interpretation.type

/-- A schema is written with the uses it has, and with nothing else. -/
theorem mem_writtenUses {s : Schema} {t : TypeUse} : t ∈ writtenUses s ↔ Schema.Uses s t := by
  constructor
  · intro h
    cases s with
    | «alias» _ => exact absurd h List.not_mem_nil
    | enumeration _ => exact absurd h List.not_mem_nil
    | record s =>
        obtain ⟨p, hp, rfl⟩ := mem_writtenProperties.mp h
        exact .property hp
    | tuple s =>
        obtain ⟨e, he, rfl⟩ := List.mem_map.mp h
        exact .element he
    | conditional s =>
        rcases List.mem_append.mp h with h | h
        · obtain ⟨p, hp, rfl⟩ := mem_writtenProperties.mp h
          exact .shared hp
        · obtain ⟨i, hi, rfl⟩ := List.mem_map.mp h
          exact .interpretation hi
  · intro h
    cases h with
    | property hp => exact mem_writtenProperties.mpr ⟨_, hp, rfl⟩
    | element he => exact List.mem_map_of_mem he
    | shared hp => exact List.mem_append_left _ (mem_writtenProperties.mpr ⟨_, hp, rfl⟩)
    | interpretation hi => exact List.mem_append_right _ (List.mem_map_of_mem hi)

/-- The names that a schema is written with. -/
def valueNames (s : Schema) : List QualifiedName := (writtenUses s).flatMap TypeUse.valueNames

end Shape

/-! ### References of a type -/

/-- The schema of a property refers to what its type is written with. -/
@[simp] theorem Property.refs_jsonSchema (p : Property) :
    p.jsonSchema.toJson.refs = p.type.valueNames.map pointer := by
  cases h : p.isLenient <;> simp [Property.jsonSchema, h]

theorem refs_objectKeywords (properties : SortedMap String Property) :
    (objectKeywords properties).toJson.refs =
      (properties.values.filter fun p => !p.isInline).flatMap
        fun p => p.type.valueNames.map pointer := by
  simp only [objectKeywords]
  -- the list of required keys refers to nothing, whether it is written or not
  split <;>
    simp [SortedMap.values, List.filter_map, List.flatMap_map, Function.comp_def]

theorem refs_inlineSchemas (properties : SortedMap String Property) :
    (inlineSchemas properties).flatMap (fun schema => schema.toJson.refs) =
      (properties.values.filter fun p => p.isInline).flatMap
        fun p => p.type.valueNames.map pointer := by
  simp [inlineSchemas, List.flatMap_map]

/-- Together, an object and its inline properties refer to what the properties are written
with. -/
theorem refs_writtenProperties (properties : SortedMap String Property) :
    (objectKeywords properties).toJson.refs ++
        (inlineSchemas properties).flatMap (fun schema => schema.toJson.refs) =
      ((writtenProperties properties).flatMap TypeUse.valueNames).map pointer := by
  rw [refs_objectKeywords, refs_inlineSchemas]
  simp [writtenProperties, List.flatMap_map, List.map_flatMap]

namespace RecordShape

theorem refs_jsonSchema (s : RecordShape Property) :
    s.jsonSchema.toJson.refs =
      ((writtenProperties s.properties).flatMap TypeUse.valueNames).map pointer := by
  rw [← refs_writtenProperties, jsonSchema]
  cases inlineSchemas s.properties <;> simp

end RecordShape

namespace ConditionalShape

variable (c : ConditionalShape Property Interpretation) (i : Interpretation)

theorem refs_armBody : (c.armBody i).toJson.refs = i.type.valueNames.map pointer := by
  cases h : c.interpretationInNestedProperty <;> simp [armBody, h]

/-- The condition of an arm refers to nothing. -/
@[simp] theorem refs_arm : (c.arm i).toJson.refs = i.type.valueNames.map pointer := by
  cases h : c.selectorInSideProperty <;> simp [arm, guard, h, refs_armBody]

theorem refs_choice :
    c.choice.toJson.refs =
      c.interpretations.values.flatMap fun i => i.type.valueNames.map pointer := by
  cases h : c.selectorInSideProperty <;> simp [choice, h, List.flatMap_map]

theorem refs_jsonSchema :
    c.jsonSchema.toJson.refs =
      ((writtenProperties c.sharedProperties).flatMap TypeUse.valueNames).map pointer ++
        c.interpretations.values.flatMap fun i => i.type.valueNames.map pointer := by
  rw [← refs_writtenProperties, jsonSchema, ← refs_choice]
  simp

end ConditionalShape

namespace Shape

/-- Listed values are scalars, so an enumeration refers to nothing. -/
theorem refs_enumeration (s : EnumShape) : s.jsonSchema.toJson.refs = [] := by
  have hscalar (v : EnumValue) : (EnumShape.jsonValue s.underlying v).refs = [] := by
    unfold EnumShape.jsonValue
    split
    · split <;> rfl
    · rfl
  simp [EnumShape.jsonSchema, List.flatMap_map, hscalar]

/-- The schema of a type refers to the names it is written with, in order. -/
theorem refs_jsonSchema (s : Schema) :
    (jsonSchema s).toJson.refs = (valueNames s).map pointer := by
  rw [jsonSchema, JsonSchema.refs_annotated]
  cases s with
  | «alias» s => rfl
  | enumeration s => exact refs_enumeration s
  | record s => exact s.refs_jsonSchema
  | tuple s =>
      simp [bareJsonSchema, TupleShape.jsonSchema, valueNames, writtenUses, List.flatMap_map,
        List.map_flatMap]
  | conditional s =>
      refine s.refs_jsonSchema.trans ?_
      simp [valueNames, writtenUses, List.flatMap_map, List.map_flatMap]

end Shape

/-! ### References of a document -/

namespace Api

variable {api : Api}

/-- The names that the definitions of a document are written with, type by type. -/
def valueNames (api : Api) : List QualifiedName := api.types.values.flatMap Shape.valueNames

theorem refs_document (h : (api.types.keys.map QualifiedName.text).Nodup) (root : JsonSchema) :
    (api.document root).toJson.refs = root.toJson.refs ++ api.valueNames.map pointer := by
  have hdefinitions : Json.memberRefs ((api.document root).definitions.map fun e =>
      (e.1.text, e.2.toJson)) = api.valueNames.map pointer := by
    rw [Json.memberRefs_eq]
    simp [document, valueNames, SortedMap.values, Json.refOf, JsonSchema.toJson,
      ← Shape.refs_jsonSchema, List.flatMap_map, List.map_flatMap]
  have hroot : Json.memberRefs (JsonSchema.members (api.document root).root) =
      root.toJson.refs := rfl
  rw [JsonSchema.Document.toJson, Json.refs, ofEntries_document h, Json.memberRefs_append,
    Json.memberRefs, hroot]
  simp only [Json.memberRefs, Json.refOf, Json.refs, hdefinitions]
  simp

/-- A document defines each type of the API under its text. -/
theorem definition?_document (h : (api.types.keys.map QualifiedName.text).Nodup)
    (root : JsonSchema) {n : QualifiedName} {schema : Schema}
    (hschema : api.types.get? n = some schema) :
    (api.document root).toJson.definition? n.text = some (Shape.jsonSchema schema).toJson := by
  have hmember : (api.document root).toJson.member? "$defs" =
      some (.object ((api.document root).definitions.map fun e => (e.1.text, e.2.toJson))) := by
    -- the keywords of the root do not hide the definitions
    have hroot : (JsonSchema.members root).lookup "$defs" = none := by
      rw [JsonSchema.members_eq, List.lookup_eq_none_iff]
      intro e he
      obtain ⟨keyword, -, rfl⟩ := List.mem_map.mp he
      exact bne_iff_ne.mpr keyword.member_ne_defs.symm
    rw [JsonSchema.Document.toJson, ofEntries_document h, Json.member?, List.lookup_append]
    simp [document, List.lookup_cons, hroot]
  rw [Json.definition?, hmember]
  refine Listing.lookup_of_mem (nodup_definitions h root) ?_
  exact List.mem_map.mpr ⟨(n, Shape.jsonSchema schema),
    List.mem_map.mpr ⟨(n, schema), SortedMap.get?_eq_some_iff.mp hschema, rfl⟩, rfl⟩

/-- The type a text leads to is one of the API that is written like this. -/
theorem of_findType?_eq_some {text : String} {n : QualifiedName} {schema : Schema}
    (h : api.findType? text = some (n, schema)) :
    api.types.contains n = true ∧ n.text = text := by
  have htext := List.find?_some (p := fun e : QualifiedName × Schema => e.1.text = text) h
  have hmem : (n, schema) ∈ api.types.entries := List.mem_of_find?_eq_some h
  exact ⟨SortedMap.contains_iff_exists.mpr ⟨schema, SortedMap.get?_eq_some_iff.mpr hmem⟩,
    of_decide_eq_true htext⟩

/-- The document of a type refers to it and has nothing else at its root. -/
theorem of_typeDocument_eq_ok {text : String} {doc : JsonSchema.Document}
    (h : api.typeDocument text = .ok doc) :
    ∃ n, api.types.contains n = true ∧ n.text = text ∧ doc = api.document [.ref n] := by
  unfold typeDocument at h
  split at h
  · next n schema hfind =>
    obtain ⟨hn, htext⟩ := of_findType?_eq_some hfind
    exact ⟨n, hn, htext, (Except.ok.inj h).symm⟩
  · cases h

/-- A text is accepted exactly if some type of the API is written like this. -/
theorem exists_typeDocument_iff {text : String} :
    (∃ doc, api.typeDocument text = .ok doc) ↔
      ∃ n, api.types.contains n = true ∧ n.text = text := by
  constructor
  · intro h
    obtain ⟨doc, h⟩ := h
    obtain ⟨n, hn, htext, -⟩ := of_typeDocument_eq_ok h
    exact ⟨n, hn, htext⟩
  · intro h
    obtain ⟨n, hn, htext⟩ := h
    obtain ⟨schema, hschema⟩ := SortedMap.contains_iff_exists.mp hn
    unfold typeDocument
    cases hfind : api.findType? text with
    | some e => exact ⟨_, rfl⟩
    | none =>
        exact absurd (decide_eq_true htext)
          (List.find?_eq_none.mp hfind _ (SortedMap.get?_eq_some_iff.mp hschema))

end Api

/-! ### References lead to the types they name -/

namespace ApiDefinition

variable {d : ApiDefinition} {s : Selection} {api : Api}

/-- A document refers to exactly these names, in this order, and defines each of them by the
schema of the declaration that the name has at the version. -/
def DocumentRefersTo (d : ApiDefinition) (v : Version) (document : Json)
    (names : List QualifiedName) : Prop :=
  document.refs = names.map pointer ∧
    ∀ n ∈ names, ∃ decl, d.registry.Declares v n decl ∧
      document.definition? n.text = some (Shape.jsonSchema decl.resolved).toJson

/-- The definitions of a document mention supported types only. -/
theorem contains_of_mem_valueNames (h : d.build s = .ok api) {n : QualifiedName}
    (hn : n ∈ api.valueNames) : api.types.contains n = true := by
  obtain ⟨schema, hschema, hn⟩ := List.mem_flatMap.mp hn
  obtain ⟨t, ht, hn⟩ := List.mem_flatMap.mp hn
  obtain ⟨a, ha⟩ := SortedMap.mem_values_iff.mp hschema
  have hreach : d.Reachable s a :=
    (contains_types_of_build h).mp (SortedMap.contains_iff_exists.mpr ⟨schema, ha⟩)
  have href : d.registry.RefersTo s.version a n :=
    refersTo_of_type h ha (Shape.mem_writtenUses.mp ht) (TypeUse.names_of_mem_valueNames hn)
  exact (contains_types_of_build h).mpr (Registry.Reachable.step hreach href)

/-- A document whose root is written with supported types refers to what it is written
with. -/
theorem documentRefersTo (h : d.build s = .ok api)
    (hnodup : (api.types.keys.map QualifiedName.text).Nodup) {root : JsonSchema}
    {names : List QualifiedName} (hroot : root.toJson.refs = names.map pointer)
    (hnames : ∀ n ∈ names, api.types.contains n = true) :
    d.DocumentRefersTo s.version (api.document root).toJson (names ++ api.valueNames) := by
  constructor
  · rw [Api.refs_document hnodup, hroot, List.map_append]
  · intro n hn
    have hsupported : api.types.contains n = true := by
      rcases List.mem_append.mp hn with hn | hn
      · exact hnames n hn
      · exact contains_of_mem_valueNames h hn
    obtain ⟨schema, hschema⟩ := SortedMap.contains_iff_exists.mp hsupported
    obtain ⟨-, decl, hdecl, rfl⟩ := (get?_types_of_build h).mp hschema
    exact ⟨decl, hdecl, Api.definition?_document hnodup root hschema⟩

end ApiDefinition

end ApiChronicle
