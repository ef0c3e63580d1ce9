import ApiChronicle.Proofs.SchemaAcceptance
import ApiChronicle.Proofs.SchemaApplicators

/-! # ApiChronicle.Proofs.AliasTransparency

**What it takes to export an alias like the primitive it stands for.**

A use of an alias is exported as a reference, and the document defines the alias by the schema
of its primitive. So a reader who puts definitions of aliases in the place of the references to
them (`Json.inlined`) should find what the primitives themselves are exported as. As a value an
alias is transparent in this sense, however deep it stands in arrays and maps. As the key of a
map it is not, if it stands for an integer: only keys that are integers without an alias get a
pattern. That is all there is between the two (`TypeUse.inlined_jsonSchema_eq_iff`), and it
makes the schema with the alias the more permissive one (`TypeUse.accepts_of_unaliased`).
-/

namespace ApiChronicle

open JsonSchema (pointer)

/-! ### References replaced by definitions -/

namespace Json

mutual

/-- A value with references replaced by the members of a definition, where `lead` has one. -/
def inlined (lead : String → Option (List (String × Json))) : Json → Json
  | .array elements => .array (inlinedElements lead elements)
  | .object members => .object (inlinedMembers lead members)
  | value => value

def inlinedElements (lead : String → Option (List (String × Json))) : List Json → List Json
  | [] => []
  | value :: rest => value.inlined lead :: inlinedElements lead rest

def inlinedMembers (lead : String → Option (List (String × Json))) :
    List (String × Json) → List (String × Json)
  | [] => []
  | (key, value) :: rest =>
    (((refOf key value).findSome? lead).getD [(key, value.inlined lead)]) ++
      inlinedMembers lead rest

end

end Json

namespace Api

/-- The primitive that a name is an alias of. -/
def primitive? (api : Api) (n : QualifiedName) : Option Primitive :=
  match api.types.get? n with
  | some (.alias s) => some s.primitive
  | _ => none

theorem primitive?_eq_some_iff {api : Api} {n : QualifiedName} {p : Primitive} :
    api.primitive? n = some p ↔ ∃ s, api.types.get? n = some (.alias s) ∧ s.primitive = p := by
  unfold primitive?
  split
  · next s h => simp [h]
  · next h => simpa using fun s hs => (h s hs).elim

/-- What a reference of a document leads to if that is an alias: the members of its definition,
without remarks. -/
def aliasMembers? (api : Api) (document : Json) (reference : String) :
    Option (List (String × Json)) :=
  match api.types.entries.find? fun e => pointer e.1 = reference with
  | some (n, .alias _) =>
    match document.definition? n.text with
    | some (.object members) =>
      some (members.filter fun e => e.1 ≠ "description" ∧ e.1 ≠ "deprecated")
    | _ => none
  | _ => none

/-- A reference to an alias leads to the schema of its primitive. -/
theorem aliasMembers?_document {api : Api} (h : (api.types.keys.map QualifiedName.text).Nodup)
    (root : JsonSchema) {n : QualifiedName} {p : Primitive} (hp : api.primitive? n = some p) :
    api.aliasMembers? (api.document root).toJson (pointer n) =
      some [("type", .string p.jsonType)] := by
  obtain ⟨s, hs, rfl⟩ := primitive?_eq_some_iff.mp hp
  have hfind : (api.types.entries.find? fun e => pointer e.1 = pointer n) =
      some (n, .alias s) := by
    have htext := findType?_text h hs
    unfold findType? at htext
    simpa [pointer] using htext
  unfold aliasMembers?
  rw [hfind]
  simp only [definition?_document h root hs]
  unfold Shape.jsonSchema JsonSchema.annotated JsonSchema.toJson
  by_cases hdescription : (Shape.alias s : Schema).description.isEmpty = true <;>
    simp [hdescription, Shape.bareJsonSchema, JsonSchema.members, JsonSchema.Keyword.member]

end Api

/-- Remarks play no part in what an alias accepts. -/
theorem Shape.accepts_alias {reading : JsonSchema.Reading} {s : AliasShape} {v : Json} :
    (Shape.jsonSchema (.alias s)).accepts reading v = v.hasType s.primitive.jsonType := by
  rw [Shape.jsonSchema, JsonSchema.accepts_annotated]
  simp [Shape.bareJsonSchema, JsonSchema.accepts, JsonSchema.meets, JsonSchema.Keyword.accepts]

/-! ### Uses without aliases -/

namespace TypeUse

/-- A use with the primitives that its aliases stand for. -/
def unaliased (primitive? : QualifiedName → Option Primitive) : TypeUse → TypeUse
  | .primitive p => .primitive p
  | .array elements nullable => .array (elements.unaliased primitive?) nullable
  | .map keys values nullable =>
    .map (keys.unaliased primitive?) (values.unaliased primitive?) nullable
  | .alias n => ((primitive? n).map .primitive).getD (.alias n)
  | .declaration n => .declaration n

/-- Some value of the type is a map with keys of an alias for integers. -/
inductive HasIntegerAliasKey (primitive? : QualifiedName → Option Primitive) : TypeUse → Prop
  | keys {n p values nullable} (stands : primitive? n = some p)
      (integer : p = .integer ∨ p = .integerId) :
      HasIntegerAliasKey primitive? (.map (.alias n) values nullable)
  | values {keys values nullable} (h : HasIntegerAliasKey primitive? values) :
      HasIntegerAliasKey primitive? (.map keys values nullable)
  | elements {elements nullable} (h : HasIntegerAliasKey primitive? elements) :
      HasIntegerAliasKey primitive? (.array elements nullable)

end TypeUse

/-! ### Exported uses -/

namespace TypeUse

variable {lead : String → Option (List (String × Json))}
  {primitive? : QualifiedName → Option Primitive} {t : TypeUse} {n : QualifiedName}

/-- The schema of the elements of an array or of the values of a map. -/
def innerSchema (t : TypeUse) (nullable : Bool) : JsonSchema :=
  if nullable then JsonSchema.nullable t.jsonSchema else t.jsonSchema

/-- Null is allowed around the schema, wherever its references lead. -/
theorem inlined_innerSchema_inj {u : TypeUse} (nullable : Bool) :
    (t.innerSchema nullable).toJson.inlined lead = (u.innerSchema nullable).toJson.inlined lead ↔
      t.jsonSchema.toJson.inlined lead = u.jsonSchema.toJson.inlined lead := by
  have hnullable (schema : JsonSchema) : (JsonSchema.nullable schema).toJson.inlined lead =
      .object [("anyOf", .array [schema.toJson.inlined lead,
        .object [("type", .string "null")]])] := by
    simp [JsonSchema.nullable, JsonSchema.toJson, JsonSchema.members, JsonSchema.arrayOf,
      JsonSchema.Keyword.member, Json.inlined, Json.inlinedMembers, Json.inlinedElements,
      Json.refOf]
  cases nullable with
  | false => exact Iff.rfl
  | true => simp [innerSchema, hnullable]

theorem inlined_array (elements : TypeUse) (nullable : Bool) :
    (array elements nullable).jsonSchema.toJson.inlined lead =
      .object [("type", .string "array"),
        ("items", (elements.innerSchema nullable).toJson.inlined lead)] := by
  simp [jsonSchema, innerSchema, JsonSchema.toJson, JsonSchema.members, JsonSchema.Keyword.member,
    Json.inlined, Json.inlinedMembers, Json.refOf]

theorem inlined_map (keys values : TypeUse) (nullable : Bool) :
    (map keys values nullable).jsonSchema.toJson.inlined lead =
      .object ([("type", .string "object"),
          ("additionalProperties", (values.innerSchema nullable).toJson.inlined lead)] ++
        if keys.isIntegerKey then
          [("propertyNames", .object [("pattern", .string integerPattern)])]
        else []) := by
  cases hkeys : keys.isIntegerKey <;>
    simp [jsonSchema, innerSchema, hkeys, JsonSchema.toJson, JsonSchema.members,
      JsonSchema.Keyword.member, Json.inlined, Json.inlinedMembers, Json.refOf]

theorem inlined_alias (n : QualifiedName) :
    (TypeUse.alias n).jsonSchema.toJson.inlined lead =
      .object ((lead (pointer n)).getD [("$ref", .string (pointer n))]) := by
  simp [jsonSchema, JsonSchema.toJson, JsonSchema.members, JsonSchema.Keyword.member,
    Json.inlined, Json.inlinedMembers, Json.refOf]

/-! ### Keys of maps -/

theorem isIntegerKey_primitive {p : Primitive} :
    (primitive p).isIntegerKey = true ↔ p = .integer ∨ p = .integerId := by
  cases p <;> decide

/-- Keys restrict how they are written as their primitive does, unless they are an alias for
integers. -/
theorem isIntegerKey_unaliased_iff {keys : TypeUse} :
    keys.isIntegerKey = (keys.unaliased primitive?).isIntegerKey ↔
      ¬∃ n p, keys = .alias n ∧ primitive? n = some p ∧ (p = .integer ∨ p = .integerId) := by
  cases keys with
  | «alias» n =>
      cases hp : primitive? n with
      | none => simp [unaliased, hp]
      | some p =>
          have hplain : (TypeUse.alias n).isIntegerKey = false := rfl
          simp [unaliased, hp, hplain, ← isIntegerKey_primitive]
  | _ => simp [unaliased, isIntegerKey]

/-- A map has such keys itself or in its values. -/
theorem hasIntegerAliasKey_map_iff {keys values : TypeUse} {nullable : Bool} :
    HasIntegerAliasKey primitive? (.map keys values nullable) ↔
      (∃ n p, keys = .alias n ∧ primitive? n = some p ∧ (p = .integer ∨ p = .integerId)) ∨
        HasIntegerAliasKey primitive? values := by
  constructor
  · intro h
    cases h with
    | keys stands integer => exact Or.inl ⟨_, _, rfl, stands, integer⟩
    | values h => exact Or.inr h
  · rintro (⟨n, p, rfl, stands, integer⟩ | h)
    · exact .keys stands integer
    · exact .values h

/-- **Which uses are exported like their primitives.** References to aliases lead to the schemas
of their primitives. Then a use whose names of aliases stand for primitives makes the same
schema with these primitives in their place, unless the keys of some map in it are an alias for
integers. -/
theorem inlined_jsonSchema_eq_iff
    (hlead : ∀ n p, primitive? n = some p → lead (pointer n) = some [("type", .string p.jsonType)])
    (ht : ∀ n, .alias n ∈ t.mentions → (primitive? n).isSome = true) :
    t.jsonSchema.toJson.inlined lead =
        (t.unaliased primitive?).jsonSchema.toJson.inlined lead ↔
      ¬t.HasIntegerAliasKey primitive? := by
  induction t with
  | primitive p => exact iff_of_true rfl nofun
  | array elements nullable ih =>
      have hkeys : HasIntegerAliasKey primitive? (.array elements nullable) ↔
          HasIntegerAliasKey primitive? elements :=
        ⟨fun h => by cases h; assumption, .elements⟩
      rw [unaliased, inlined_array, inlined_array, hkeys, ← ih ht,
        ← inlined_innerSchema_inj nullable]
      simp
  | map keys values nullable _ ih =>
      have hvalues := ih fun n hn => ht n (List.mem_append_right _ hn)
      rw [unaliased, inlined_map, inlined_map, hasIntegerAliasKey_map_iff, not_or, ← hvalues,
        ← isIntegerKey_unaliased_iff, ← inlined_innerSchema_inj nullable, and_comm]
      cases keys.isIntegerKey <;> cases (keys.unaliased primitive?).isIntegerKey <;> simp
  | «alias» n =>
      obtain ⟨p, hp⟩ := Option.isSome_iff_exists.mp (ht n List.mem_cons_self)
      refine iff_of_true ?_ nofun
      rw [inlined_alias, hlead n p hp, unaliased, hp]
      rfl
  | declaration n => exact iff_of_true rfl nofun

/-- No alias is left of them. -/
theorem alias_not_mem_unaliased (ht : ∀ n, .alias n ∈ t.mentions → (primitive? n).isSome = true)
    (n : QualifiedName) : .alias n ∉ (t.unaliased primitive?).mentions := by
  induction t with
  | primitive _ => exact List.not_mem_nil
  | array elements _ ih => exact ih ht
  | map keys values _ ihKeys ihValues =>
      intro hn
      rcases List.mem_append.mp hn with hn | hn
      · exact ihKeys (fun a ha => ht a (List.mem_append_left _ ha)) hn
      · exact ihValues (fun a ha => ht a (List.mem_append_right _ ha)) hn
  | «alias» a =>
      obtain ⟨p, hp⟩ := Option.isSome_iff_exists.mp (ht a List.mem_cons_self)
      rw [unaliased, hp]
      exact List.not_mem_nil
  | declaration a =>
      intro hn
      cases List.mem_singleton.mp hn

/-! ### Accepted values -/

variable {reading : JsonSchema.Reading} {v : Json}

theorem accepts_innerSchema {nullable : Bool} :
    (t.innerSchema nullable).accepts reading v =
      (t.jsonSchema.accepts reading v || (nullable && v.hasType "null")) := by
  cases nullable <;> simp [innerSchema, JsonSchema.nullable, JsonSchema.accepts, JsonSchema.meets,
    JsonSchema.Keyword.accepts, JsonSchema.verdicts]

theorem accepts_array {elements : TypeUse} {nullable : Bool} :
    (array elements nullable).jsonSchema.accepts reading v =
      match v with
      | .array values => values.all fun x => (elements.innerSchema nullable).accepts reading x
      | _ => false := by
  cases v <;> simp [jsonSchema, innerSchema, JsonSchema.accepts, JsonSchema.meets,
    JsonSchema.Keyword.accepts, JsonSchema.coveredItems, Json.hasType]

theorem accepts_map {keys values : TypeUse} {nullable : Bool} :
    (map keys values nullable).jsonSchema.accepts reading v =
      match v with
      | .object members =>
        (members.all fun m => (values.innerSchema nullable).accepts reading m.2) &&
          (!keys.isIntegerKey || members.all fun m => reading.fits integerPattern m.1)
      | _ => false := by
  cases hkeys : keys.isIntegerKey <;> cases v <;> simp [jsonSchema, innerSchema, hkeys,
    JsonSchema.accepts, JsonSchema.meets, JsonSchema.Keyword.accepts, JsonSchema.namedKeys,
    Json.hasType]

/-- Values of an alias are values of its primitive. -/
theorem accepts_alias {n : QualifiedName} {p : Primitive}
    (hreading : ∀ v, reading.accepts n v = v.hasType p.jsonType) :
    (TypeUse.alias n).jsonSchema.accepts reading v = (primitive p).jsonSchema.accepts reading v := by
  simp [jsonSchema, JsonSchema.accepts, JsonSchema.meets, JsonSchema.Keyword.accepts, hreading]

/-- Keys that restrict how they are written are a primitive, which has no alias. -/
theorem isIntegerKey_unaliased {keys : TypeUse} (h : keys.isIntegerKey = true) :
    (keys.unaliased primitive?).isIntegerKey = true := by
  cases keys with
  | primitive p => exact h
  | _ => cases h

/-- What the schema without aliases accepts the one with aliases accepts. -/
theorem accepts_of_unaliased
    (hreading : ∀ n p, primitive? n = some p → ∀ v, reading.accepts n v = v.hasType p.jsonType)
    (ht : ∀ n, .alias n ∈ t.mentions → (primitive? n).isSome = true)
    (h : (t.unaliased primitive?).jsonSchema.accepts reading v = true) :
    t.jsonSchema.accepts reading v = true := by
  induction t generalizing v with
  | primitive p => exact h
  | array elements nullable ih =>
      rw [unaliased, accepts_array] at h
      rw [accepts_array]
      cases v with
      | array values =>
          simp only [List.all_eq_true, accepts_innerSchema, Bool.or_eq_true] at h ⊢
          exact fun x hx => (h x hx).imp_left (ih ht)
      | _ => exact h
  | map keys values nullable _ ih =>
      rw [unaliased, accepts_map] at h
      rw [accepts_map]
      cases v with
      | object members =>
          simp only [Bool.and_eq_true, List.all_eq_true, accepts_innerSchema, Bool.or_eq_true,
            Bool.not_eq_true'] at h ⊢
          obtain ⟨hvalues, hkeys⟩ := h
          refine ⟨fun m hm => (hvalues m hm).imp_left (ih ?_), ?_⟩
          · exact fun n hn => ht n (List.mem_append_right _ hn)
          · cases hinteger : keys.isIntegerKey with
            | false => exact Or.inl rfl
            | true =>
                rw [isIntegerKey_unaliased hinteger] at hkeys
                exact hkeys
      | _ => exact h
  | «alias» n =>
      obtain ⟨p, hp⟩ := Option.isSome_iff_exists.mp (ht n List.mem_cons_self)
      rw [unaliased, hp] at h
      rw [accepts_alias (hreading n p hp)]
      exact h
  | declaration n => exact h

/-- The two accept the same values if no keys are an alias for integers. -/
theorem accepts_unaliased
    (hreading : ∀ n p, primitive? n = some p → ∀ v, reading.accepts n v = v.hasType p.jsonType)
    (ht : ∀ n, .alias n ∈ t.mentions → (primitive? n).isSome = true)
    (hkeys : ¬t.HasIntegerAliasKey primitive?) :
    t.jsonSchema.accepts reading v = (t.unaliased primitive?).jsonSchema.accepts reading v := by
  induction t generalizing v with
  | primitive p => rfl
  | array elements nullable ih =>
      have helements (x : Json) := ih (v := x) ht fun h => hkeys (.elements h)
      simp only [unaliased, accepts_array, accepts_innerSchema, helements]
  | map keys values nullable _ ih =>
      rw [hasIntegerAliasKey_map_iff, not_or] at hkeys
      have hvalues (x : Json) := ih (v := x) (fun n hn => ht n (List.mem_append_right _ hn)) hkeys.2
      have hinteger := isIntegerKey_unaliased_iff.mpr hkeys.1
      simp only [unaliased, accepts_map, accepts_innerSchema, hvalues, hinteger]
  | «alias» n =>
      obtain ⟨p, hp⟩ := Option.isSome_iff_exists.mp (ht n List.mem_cons_self)
      rw [accepts_alias (hreading n p hp), unaliased, hp]
      rfl
  | declaration n => rfl

end TypeUse

/-! ### Uses in the documents of an API -/

namespace Api

variable {api : Api} {t : TypeUse}

/-- The names of a use are types of the API, and those it has as aliases are aliases. -/
structure Supports (api : Api) (t : TypeUse) : Prop where
  types : ∀ n, t.Names n → api.types.contains n = true
  aliases : ∀ n, .alias n ∈ t.mentions → (api.primitive? n).isSome = true

/-- The schema of a use with the definitions of aliases in the place of the references to them,
as the document with the given root has them. -/
def inlinedSchema (api : Api) (root : JsonSchema) (t : TypeUse) : Json :=
  t.jsonSchema.toJson.inlined (api.aliasMembers? (api.document root).toJson)

theorem inlinedSchema_eq_iff (hnodup : (api.types.keys.map QualifiedName.text).Nodup)
    (ht : api.Supports t) (root : JsonSchema) :
    api.inlinedSchema root t = api.inlinedSchema root (t.unaliased api.primitive?) ↔
      ¬t.HasIntegerAliasKey api.primitive? :=
  TypeUse.inlined_jsonSchema_eq_iff (fun _ _ => aliasMembers?_document hnodup root) ht.aliases

/-- **Aliases are exported like their primitives, except as keys.** Let the types of an API have
different texts. A supported use has no alias left when each is replaced by its primitive. With
the definitions of aliases in the place of the references to them, as any document of the API has
them, both are exported as one schema exactly if no map in the use is keyed by an alias for
integers. Whatever the other definitions accept and however patterns are read, the use accepts
what it accepts without aliases, and nothing else if there is no such map. -/
theorem aliases_transparent_iff (hnodup : (api.types.keys.map QualifiedName.text).Nodup)
    (ht : api.Supports t) :
    (∀ n, .alias n ∉ (t.unaliased api.primitive?).mentions) ∧
    (∀ root, api.inlinedSchema root t = api.inlinedSchema root (t.unaliased api.primitive?) ↔
      ¬t.HasIntegerAliasKey api.primitive?) ∧
    ∀ reading : JsonSchema.Reading,
      (∀ n s, api.types.get? n = some (.alias s) →
        ∀ v, reading.accepts n v = (Shape.jsonSchema (.alias s)).accepts reading v) →
      (∀ v, (t.unaliased api.primitive?).jsonSchema.accepts reading v = true →
        t.jsonSchema.accepts reading v = true) ∧
      (¬t.HasIntegerAliasKey api.primitive? → ∀ v, t.jsonSchema.accepts reading v =
        (t.unaliased api.primitive?).jsonSchema.accepts reading v) := by
  refine ⟨TypeUse.alias_not_mem_unaliased ht.aliases, inlinedSchema_eq_iff hnodup ht,
    fun reading hreads => ?_⟩
  have hreading : ∀ n p, api.primitive? n = some p →
      ∀ v, reading.accepts n v = v.hasType p.jsonType := by
    intro n p hp v
    obtain ⟨s, hs, rfl⟩ := primitive?_eq_some_iff.mp hp
    rw [hreads n s hs, Shape.accepts_alias]
  exact ⟨fun v => TypeUse.accepts_of_unaliased hreading ht.aliases,
    fun hkeys v => TypeUse.accepts_unaliased hreading ht.aliases hkeys⟩

end Api

/-! ### IDs of items -/

namespace Scope

def itemId : QualifiedName := .alias (Name.derive "ItemId")

/-- A map from IDs of items to names. -/
def itemNames : TypeUse := .map (.alias itemId) (.primitive .string) false

/-- IDs of items can be declared as an alias for integers. An API that serves their names has
the alias as a type. -/
theorem exists_itemIds :
    ∃ r api, (declareAlias "ItemId" .integer "").run .empty = .ok (.alias itemId) r ∧
      (ApiDefinition.serving r itemNames).build (.all .classic) = .ok api ∧
      (api.types.keys.map QualifiedName.text).Nodup ∧ api.primitive? itemId = some .integer := by
  obtain ⟨r, t, api, hdeclare, hbuild, hnodup, hitem⟩ :=
    ApiDefinition.exists_serving
      (.ok itemNames ⟨.ofList [(itemId, .constant (.alias ⟨itemId, .integer, ""⟩))], .empty⟩)
      .classic
      (fun api => (api.types.keys.map QualifiedName.text).Nodup ∧
        api.primitive? itemId = some .integer)
      (by decide +kernel)
  cases hdeclare
  exact ⟨_, api, rfl, hbuild, hnodup, hitem⟩

end Scope

/-- A use that mentions one alias only is supported where the API has the alias. -/
theorem Api.supports_of_mentions {api : Api} {t : TypeUse} {p : Primitive} {n : QualifiedName}
    (hp : api.primitive? n = some p) (h : ∀ m ∈ t.mentions, m = .alias n) : api.Supports t := by
  obtain ⟨s, hs, -⟩ := primitive?_eq_some_iff.mp hp
  constructor
  · intro a ha
    obtain ⟨m, hm, rfl⟩ := TypeUse.names_iff_mention.mp ha
    obtain rfl := h m hm
    exact SortedMap.contains_iff_exists.mpr ⟨_, hs⟩
  · intro a ha
    obtain rfl := Mention.alias.inj (h _ ha)
    exact Option.isSome_iff_exists.mpr ⟨p, hp⟩

/-- An array of IDs of items is exported like an array of integers, but a map from them is not
exported like a map from integers. -/
theorem Api.aliases_transparent_itemIds :
    ∃ r api, (Scope.declareAlias "ItemId" .integer "").run .empty = .ok (.alias Scope.itemId) r ∧
      (ApiDefinition.serving r Scope.itemNames).build (.all .classic) = .ok api ∧
      ∀ root,
        api.inlinedSchema root (.arrayOf (.alias Scope.itemId)) =
          api.inlinedSchema root (.arrayOf (.primitive .integer)) ∧
        api.inlinedSchema root Scope.itemNames ≠
          api.inlinedSchema root (.map (.primitive .integer) (.primitive .string) false) := by
  obtain ⟨r, api, hdeclare, hbuild, hnodup, hitem⟩ := Scope.exists_itemIds
  have harray : api.Supports (.arrayOf (.alias Scope.itemId)) :=
    supports_of_mentions hitem fun m hm => List.mem_singleton.mp hm
  have hmap : api.Supports Scope.itemNames :=
    supports_of_mentions hitem fun m hm => List.mem_singleton.mp hm
  obtain ⟨-, htransparent, -⟩ := aliases_transparent_iff hnodup harray
  obtain ⟨-, hkeyed, -⟩ := aliases_transparent_iff hnodup hmap
  simp only [TypeUse.arrayOf, Scope.itemNames, TypeUse.unaliased, hitem, Option.map_some,
    Option.getD_some] at htransparent hkeyed
  refine ⟨r, api, hdeclare, hbuild, fun root => ⟨(htransparent root).mpr ?_, fun heq => ?_⟩⟩
  · intro hkeys
    cases hkeys with
    | elements hkeys => cases hkeys
  · exact (hkeyed root).mp heq (.keys hitem (Or.inl rfl))

/-- The keys of a map may be an alias for integers. The map is not exported like the map whose
keys are integers. -/
theorem Scope.integer_alias_key_exported :
    ∃ r api, (declareAlias "ItemId" .integer "").run .empty = .ok (.alias itemId) r ∧
      (ApiDefinition.serving r itemNames).build (.all .classic) = .ok api ∧
      api.Supports itemNames ∧ itemNames.unaliased api.primitive? =
        .map (.primitive .integer) (.primitive .string) false ∧
      ∀ root, api.inlinedSchema root itemNames ≠
        api.inlinedSchema root (itemNames.unaliased api.primitive?) := by
  obtain ⟨r, api, hdeclare, hbuild, hnodup, hitem⟩ := exists_itemIds
  have hmap : api.Supports itemNames :=
    Api.supports_of_mentions hitem fun m hm => List.mem_singleton.mp hm
  refine ⟨r, api, hdeclare, hbuild, hmap, ?_, fun root heq => ?_⟩
  · simp [itemNames, TypeUse.unaliased, hitem]
  · exact (Api.inlinedSchema_eq_iff hnodup hmap root).mp heq (.keys hitem (Or.inl rfl))

end ApiChronicle
