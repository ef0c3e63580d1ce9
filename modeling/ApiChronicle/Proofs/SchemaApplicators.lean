import ApiChronicle.Proofs.DocumentReferences
import ApiChronicle.Proofs.Snapshots

/-! # ApiChronicle.Proofs.SchemaApplicators

**Keywords that apply a list of schemas**, and when their list is empty.

The dialect of the exported documents asks `allOf`, `anyOf`, `oneOf` and `prefixItems` for at
least one schema. `Json.HasSubschema` finds the schemas of a document as the dialect does, so a
property that happens to be called `oneOf` is not taken for a keyword.

Exports leave two lists as long as the type makes them. A tuple writes one schema per element
to `prefixItems`, a conditional one per interpretation to `oneOf` or `anyOf`, and both write the
keyword also if there is none. Tuples without elements can be declared
(`empty_tuple_exported`); conditionals have versions without interpretations as soon as a shared
property is older than all of them. No other list is ever empty
(`ApiDefinition.exported_applicators`).
-/

namespace ApiChronicle

/-- A keyword that applies a list of schemas. -/
inductive Applicator
  | allOf
  | anyOf
  | oneOf
  | prefixItems
  deriving DecidableEq, Repr

/-- The keyword as it is written. -/
def Applicator.keyword : Applicator → String
  | .allOf => "allOf"
  | .anyOf => "anyOf"
  | .oneOf => "oneOf"
  | .prefixItems => "prefixItems"

/-! ### Schemas in a JSON value -/

namespace Json

/-- The keywords whose value is a schema. -/
def schemaKeywords : List String :=
  ["additionalProperties", "contains", "else", "if", "items", "not", "propertyNames", "then",
    "unevaluatedItems", "unevaluatedProperties"]

/-- The keywords whose value is a list of schemas. -/
def schemaListKeywords : List String := ["allOf", "anyOf", "oneOf", "prefixItems"]

/-- The keywords whose value has schemas under names. -/
def schemaTableKeywords : List String :=
  ["$defs", "dependentSchemas", "patternProperties", "properties"]

/-- The schemas that a member of a schema applies. -/
def appliedBy (key : String) (value : Json) : List Json :=
  if key ∈ schemaKeywords then [value]
  else match value with
    | .array schemas => if key ∈ schemaListKeywords then schemas else []
    | .object table => if key ∈ schemaTableKeywords then table.map Prod.snd else []
    | _ => []

/-- A schema is the document itself, or some keyword of the document applies a schema that has
it in turn. -/
inductive HasSubschema : Json → Json → Prop
  | root {v} : HasSubschema v v
  | applied {members e schema v} (he : e ∈ members) (happ : schema ∈ appliedBy e.1 e.2)
      (h : HasSubschema schema v) : HasSubschema (.object members) v

/-- Wherever a document has the keyword, it applies at least one schema. -/
def Fills (document : Json) (a : Applicator) : Prop :=
  ∀ members value, document.HasSubschema (.object members) → (a.keyword, value) ∈ members →
    ∃ schema rest, value = .array (schema :: rest)

/-- What one member contributes to `Fills`. -/
def MemberFills (e : String × Json) (a : Applicator) : Prop :=
  (e.1 = a.keyword → ∃ schema rest, e.2 = .array (schema :: rest)) ∧
    ∀ schema ∈ appliedBy e.1 e.2, schema.Fills a

theorem fills_object_iff {members : List (String × Json)} {a : Applicator} :
    (object members).Fills a ↔ ∀ e ∈ members, MemberFills e a := by
  constructor
  · intro h e he
    constructor
    · intro hkey
      exact h members e.2 .root (hkey ▸ he)
    · intro schema happ members' value hsub hmem
      exact h members' value (.applied he happ hsub) hmem
  · intro h members' value hsub hmem
    cases hsub with
    | root => exact (h _ hmem).1 rfl
    | applied he happ hsub => exact (h _ he).2 _ happ members' value hsub hmem

end Json

/-! ### Schemas as lists of keywords -/

namespace JsonSchema

/-- The list of schemas that a keyword applies, if it applies a list. -/
@[simp] def Keyword.applicator? : Keyword → Option Applicator
  | .itemsInOrder _ => some .prefixItems
  | .allOf _ => some .allOf
  | .anyOf _ => some .anyOf
  | .oneOf _ => some .oneOf
  | _ => none

/-- A keyword applies at least one schema if it is the one in question, and so do the schemas
it applies. -/
@[simp] def Keyword.Fills (keyword : Keyword) (a : Applicator) : Prop :=
  (keyword.applicator? = some a → keyword.applied ≠ []) ∧
    ∀ schema ∈ keyword.applied, schema.toJson.Fills a

theorem Keyword.appliedBy_member (keyword : Keyword) :
    Json.appliedBy keyword.member.1 keyword.member.2 = keyword.applied.map toJson := by
  cases keyword <;>
    simp [Json.appliedBy, Json.schemaKeywords, Json.schemaListKeywords,
      Json.schemaTableKeywords, member, Json.nat, arrayOf_eq, membersOf_eq, toJson]

/-- The value of such a keyword is the list of the schemas it applies. -/
theorem Keyword.lists_member (keyword : Keyword) (a : Applicator) :
    (keyword.member.1 = a.keyword → ∃ schema rest, keyword.member.2 = .array (schema :: rest)) ↔
      (keyword.applicator? = some a → keyword.applied ≠ []) := by
  cases keyword <;> cases a <;>
    simp [member, Applicator.keyword, arrayOf_eq, ← List.ne_nil_iff_exists_cons]

theorem Keyword.memberFills_iff (keyword : Keyword) (a : Applicator) :
    Json.MemberFills keyword.member a ↔ keyword.Fills a := by
  unfold Json.MemberFills Fills
  rw [keyword.lists_member, keyword.appliedBy_member, List.forall_mem_map]

theorem fills_toJson {schema : JsonSchema} {a : Applicator} :
    schema.toJson.Fills a ↔ ∀ keyword ∈ schema, keyword.Fills a := by
  rw [toJson, Json.fills_object_iff, members_eq, List.forall_mem_map]
  exact forall₂_congr fun keyword _ => keyword.memberFills_iff a

variable {a : Applicator}

@[simp] theorem fills_nil : (toJson []).Fills a :=
  fills_toJson.mpr (List.forall_mem_nil _)

@[simp] theorem fills_cons {keyword : Keyword} {rest : JsonSchema} :
    (toJson (keyword :: rest)).Fills a ↔ keyword.Fills a ∧ rest.toJson.Fills a := by
  rw [fills_toJson, fills_toJson, List.forall_mem_cons]

@[simp] theorem fills_append {schema rest : JsonSchema} :
    (toJson (schema ++ rest)).Fills a ↔ schema.toJson.Fills a ∧ rest.toJson.Fills a := by
  simp only [fills_toJson, List.forall_mem_append]

/-- The choice between a schema and null is never empty. -/
@[simp] theorem fills_nullable {schema : JsonSchema} :
    (nullable schema).toJson.Fills a ↔ schema.toJson.Fills a := by
  simp [nullable]

/-- Remarks apply nothing. -/
@[simp] theorem fills_annotated {schema : JsonSchema} {description : String}
    {isDeprecated : Bool} :
    (annotated schema description isDeprecated).toJson.Fills a ↔ schema.toJson.Fills a := by
  unfold annotated
  by_cases hdescription : description.isEmpty = true <;> cases isDeprecated <;>
    simp [hdescription]

end JsonSchema

/-! ### Exported types -/

variable {a : Applicator}

@[simp] theorem TypeUse.fills_jsonSchema (t : TypeUse) : t.jsonSchema.toJson.Fills a := by
  induction t with
  | primitive _ => simp [jsonSchema]
  | array elements nullable ih =>
      cases nullable <;> simp [jsonSchema, ih]
  | map keys values nullable _ ih =>
      cases nullable <;> cases hkeys : keys.isIntegerKey <;> simp [jsonSchema, ih, hkeys]
  | «alias» _ => simp [jsonSchema]
  | declaration _ => simp [jsonSchema]

@[simp] theorem Property.fills_jsonSchema (p : Property) : p.jsonSchema.toJson.Fills a := by
  cases h : p.isLenient <;> simp [Property.jsonSchema, h]

@[simp] theorem fills_objectKeywords (properties : SortedMap String Property) :
    (objectKeywords properties).toJson.Fills a := by
  simp only [objectKeywords]
  split <;> simp [-List.mem_map, List.forall_mem_map]

theorem fills_inlineSchemas {properties : SortedMap String Property} {schema : JsonSchema}
    (h : schema ∈ inlineSchemas properties) : schema.toJson.Fills a := by
  obtain ⟨p, -, rfl⟩ := List.mem_map.mp h
  exact p.type.fills_jsonSchema

/-- The inline properties of a record are combined only if there are any. -/
theorem RecordShape.fills_jsonSchema (s : RecordShape Property) :
    s.jsonSchema.toJson.Fills a := by
  unfold RecordShape.jsonSchema
  cases h : inlineSchemas s.properties with
  | nil => simp
  | cons schema rest =>
      have hinline : ∀ schema ∈ inlineSchemas s.properties, schema.toJson.Fills a :=
        fun schema => fills_inlineSchemas
      simpa [h] using hinline

/-- The elements of a tuple are listed, however many there are. -/
theorem TupleShape.fills_jsonSchema (s : TupleShape) :
    s.jsonSchema.toJson.Fills a ↔ ¬(a = .prefixItems ∧ s.elements = []) := by
  simp [TupleShape.jsonSchema, @eq_comm _ a]

namespace ConditionalShape

variable {π ι : Type}

/-- The keyword by which a conditional chooses among its interpretations. -/
def applicator (c : ConditionalShape π ι) : Applicator :=
  if c.selectorInSideProperty then .anyOf else .oneOf

variable (c : ConditionalShape Property Interpretation)

theorem fills_armBody (i : Interpretation) : (c.armBody i).toJson.Fills a := by
  cases h : c.interpretationInNestedProperty <;> simp [armBody, h]

/-- An arm combines its condition and its body. -/
theorem fills_arm (i : Interpretation) : (c.arm i).toJson.Fills a := by
  cases h : c.selectorInSideProperty <;> simp [arm, guard, h, fills_armBody]

/-- The interpretations are listed, however many there are. -/
theorem fills_choice :
    c.choice.toJson.Fills a ↔ ¬(a = c.applicator ∧ c.interpretations.values = []) := by
  cases h : c.selectorInSideProperty <;> simp [choice, applicator, h, fills_arm, @eq_comm _ a]

theorem fills_jsonSchema :
    c.jsonSchema.toJson.Fills a ↔ ¬(a = c.applicator ∧ c.interpretations.values = []) := by
  have hinline : ∀ schema ∈ inlineSchemas c.sharedProperties, schema.toJson.Fills a :=
    fun schema => fills_inlineSchemas
  rw [← fills_choice]
  simpa [jsonSchema, or_imp, forall_and] using fun _ => hinline

end ConditionalShape

namespace Shape

variable {π ι : Type}

/-- The schema of a type has the keyword without a schema to apply. -/
def LeavesEmpty (a : Applicator) : Shape π ι → Prop
  | .tuple s => a = .prefixItems ∧ s.elements = []
  | .conditional s => a = s.applicator ∧ s.interpretations.values = []
  | _ => False

instance (a : Applicator) (s : Shape π ι) : Decidable (s.LeavesEmpty a) :=
  match s with
  | .tuple s => inferInstanceAs (Decidable (a = .prefixItems ∧ s.elements = []))
  | .conditional s =>
    inferInstanceAs (Decidable (a = s.applicator ∧ s.interpretations.values = []))
  | .alias _ | .enumeration _ | .record _ => inferInstanceAs (Decidable False)

theorem not_leavesEmpty_allOf (s : Shape π ι) : ¬s.LeavesEmpty .allOf := by
  intro h
  cases s with
  | tuple s => exact Applicator.noConfusion h.1
  | conditional s =>
      obtain ⟨h, -⟩ := h
      unfold ConditionalShape.applicator at h
      split at h <;> cases h
  | _ => exact h

/-- Dates of members play no part once the version is fixed. -/
theorem leavesEmpty_resolved {d : Declaration} :
    LeavesEmpty a d.resolved ↔ d.LeavesEmpty a := by
  cases d with
  | conditional s =>
      simp [resolved, map, LeavesEmpty, ConditionalShape.applicator, SortedMap.values]
  | _ => exact Iff.rfl

/-- The schema of a type applies a schema wherever it has the keyword, unless it is one of
these. -/
theorem fills_jsonSchema (s : Schema) :
    (jsonSchema s).toJson.Fills a ↔ ¬s.LeavesEmpty a := by
  rw [jsonSchema, JsonSchema.fills_annotated]
  cases s with
  | «alias» s => simp [bareJsonSchema, LeavesEmpty]
  | enumeration s => simp [bareJsonSchema, EnumShape.jsonSchema, LeavesEmpty]
  | record s => simp [bareJsonSchema, LeavesEmpty, s.fills_jsonSchema]
  | tuple s => exact s.fills_jsonSchema
  | conditional s => exact s.fills_jsonSchema

end Shape

/-! ### Exported documents -/

namespace Listing

variable {α : Type}

theorem mem_of_mem_set {name : String} {value : α} {l : Listing α} {e : String × α}
    (h : e ∈ set name value l) : e = (name, value) ∨ e ∈ l := by
  induction l with
  | nil => exact Or.inl (List.mem_singleton.mp h)
  | cons e' rest ih =>
      unfold set at h
      by_cases hname : e'.1 = name
      · rw [if_pos hname] at h
        rcases List.mem_cons.mp h with h | h
        · exact Or.inl h
        · exact Or.inr (List.mem_cons_of_mem _ h)
      · rw [if_neg hname] at h
        rcases List.mem_cons.mp h with h | h
        · exact Or.inr (h ▸ List.mem_cons_self)
        · exact (ih h).imp_right (List.mem_cons_of_mem _)

/-- Whatever replaces what, an entry of the listing is one of the run. -/
theorem mem_of_mem_ofEntries {entries : List (String × α)} {e : String × α}
    (h : e ∈ ofEntries entries) : e ∈ entries := by
  suffices hrun : ∀ listing : Listing α,
      e ∈ entries.foldl (fun listing e => set e.1 e.2 listing) listing →
        e ∈ listing ∨ e ∈ entries by
    exact (hrun [] h).resolve_left List.not_mem_nil
  clear h
  induction entries with
  | nil => exact fun listing h => Or.inl h
  | cons e' rest ih =>
      intro listing h
      rcases ih _ h with h | h
      · rcases mem_of_mem_set h with rfl | h
        · exact Or.inr List.mem_cons_self
        · exact Or.inl h
      · exact Or.inr (List.mem_cons_of_mem _ h)

end Listing

/-- A document applies its root and its definitions. -/
theorem JsonSchema.Document.fills_toJson (doc : JsonSchema.Document) :
    doc.toJson.Fills a ↔ doc.root.toJson.Fills a ∧
      ∀ e ∈ Listing.ofEntries (doc.definitions.map fun e => (e.1.text, e.2.toJson)),
        e.2.Fills a := by
  have hdialect : Json.MemberFills ("$schema", .string dialect) a :=
    ⟨fun h => absurd h (by cases a <;> simp [Applicator.keyword]),
      by simp [Json.appliedBy, Json.schemaKeywords]⟩
  have hdefinitions (table : List (String × Json)) :
      Json.MemberFills ("$defs", .object table) a ↔ ∀ e ∈ table, e.2.Fills a := by
    have hkey : "$defs" ≠ a.keyword := by cases a <;> simp [Applicator.keyword]
    have happlied : Json.appliedBy "$defs" (.object table) = table.map Prod.snd := by
      simp [Json.appliedBy, Json.schemaKeywords, Json.schemaTableKeywords]
    rw [Json.MemberFills, happlied, List.forall_mem_map]
    exact and_iff_right fun h => absurd h hkey
  rw [toJson, Json.fills_object_iff, List.forall_mem_append, List.forall_mem_cons,
    List.forall_mem_singleton, hdefinitions, ← Json.fills_object_iff]
  exact and_congr_left' (and_iff_right hdialect)

namespace Api

variable {api : Api} {doc : JsonSchema.Document}

/-- A document that a client can ask for: that of a type or that of a query. -/
inductive Exports (api : Api) : JsonSchema.Document → Prop
  | type {text doc} (h : api.typeDocument text = .ok doc) : Exports api doc
  | query {q} (h : q ∈ api.queries) : Exports api (api.queryDocument q)

/-- The root of a document is a reference or the schema of a use. -/
theorem Exports.exists_root (h : api.Exports doc) :
    ∃ root, doc = api.document root ∧ ∀ a, root.toJson.Fills a := by
  cases h with
  | type h =>
      obtain ⟨n, -, -, rfl⟩ := of_typeDocument_eq_ok h
      exact ⟨_, rfl, fun a => by simp⟩
  | @query q h => exact ⟨_, rfl, fun a => q.schema.fills_jsonSchema⟩

theorem fills_definitions_iff (root : JsonSchema) :
    (∀ e ∈ (api.document root).definitions.map fun e => (e.1.text, e.2.toJson), e.2.Fills a) ↔
      ∀ schema ∈ api.types.values, ¬Shape.LeavesEmpty a schema := by
  simp only [document, SortedMap.values, List.forall_mem_map, Shape.fills_jsonSchema]

/-- Types that leave nothing empty make documents that leave nothing empty. -/
theorem Exports.fills (hdoc : api.Exports doc)
    (h : ∀ schema ∈ api.types.values, ¬Shape.LeavesEmpty a schema) : doc.toJson.Fills a := by
  obtain ⟨root, rfl, hroot⟩ := hdoc.exists_root
  refine (JsonSchema.Document.fills_toJson _).mpr ⟨hroot a, fun e he => ?_⟩
  exact (fills_definitions_iff root).mpr h e (Listing.mem_of_mem_ofEntries he)

/-- Types with different texts are all in the document, so nothing hides what one of them
leaves empty. -/
theorem Exports.fills_iff (hdoc : api.Exports doc)
    (hnodup : (api.types.keys.map QualifiedName.text).Nodup) :
    doc.toJson.Fills a ↔ ∀ schema ∈ api.types.values, ¬Shape.LeavesEmpty a schema := by
  refine ⟨fun h => ?_, hdoc.fills⟩
  obtain ⟨root, rfl, -⟩ := hdoc.exists_root
  have hdefinitions := ((JsonSchema.Document.fills_toJson _).mp h).2
  rw [ofEntries_document hnodup] at hdefinitions
  exact (fills_definitions_iff root).mp hdefinitions

end Api

namespace ApiDefinition

variable {d : ApiDefinition} {s : Selection} {api : Api}

/-- No type that a selection leads to leaves the keyword empty at the version. -/
def NoneLeavesEmpty (d : ApiDefinition) (s : Selection) (a : Applicator) : Prop :=
  ∀ n decl, d.Reachable s n → d.registry.Declares s.version n decl → ¬decl.LeavesEmpty a

theorem noneLeavesEmpty_iff (h : d.build s = .ok api) :
    d.NoneLeavesEmpty s a ↔ ∀ schema ∈ api.types.values, ¬Shape.LeavesEmpty a schema := by
  constructor
  · intro hnone schema hschema
    obtain ⟨n, hschema⟩ := SortedMap.mem_values_iff.mp hschema
    obtain ⟨hreach, decl, hdecl, rfl⟩ := (get?_types_of_build h).mp hschema
    rw [Shape.leavesEmpty_resolved]
    exact hnone n decl hreach hdecl
  · intro hnone n decl hreach hdecl
    have hschema := (get?_types_of_build h).mpr ⟨hreach, decl, hdecl, rfl⟩
    rw [← Shape.leavesEmpty_resolved]
    exact hnone _ (SortedMap.mem_values_iff.mpr ⟨n, hschema⟩)

/-- **Which keywords of an exported document have nothing to apply.** `allOf` always applies
some schema. So do `anyOf`, `oneOf` and `prefixItems` in every document of an API, unless its
types include, at the version, a tuple without elements or a conditional without
interpretations; then every document has the keyword with an empty list, provided that the
types have different texts and no other definition takes the place of the empty one. -/
theorem exported_applicators (h : d.build s = .ok api) {doc : JsonSchema.Document}
    (hdoc : api.Exports doc) :
    doc.toJson.Fills .allOf ∧
    ∀ a, (d.NoneLeavesEmpty s a → doc.toJson.Fills a) ∧
      ((api.types.keys.map QualifiedName.text).Nodup → doc.toJson.Fills a →
        d.NoneLeavesEmpty s a) := by
  have hfills (a : Applicator) (hnone : d.NoneLeavesEmpty s a) : doc.toJson.Fills a :=
    hdoc.fills ((noneLeavesEmpty_iff h).mp hnone)
  refine ⟨hfills .allOf fun n decl _ _ => decl.not_leavesEmpty_allOf, fun a => ⟨hfills a, ?_⟩⟩
  intro hnodup hdoc'
  exact (noneLeavesEmpty_iff h).mpr ((hdoc.fills_iff hnodup).mp hdoc')

/-- An API with one endpoint, which answers with one type at every version. -/
def serving (r : Registry) (t : TypeUse) : ApiDefinition where
  registry := r
  endpoints := [{ Endpoint.make "Things" "/things" with schemas := [(.classic, t)] }]
  languages := [.english]

/-- A declaration can be evaluated together with the API that serves it. -/
theorem exists_serving (declared : EStateM.Result DefinitionError Registry TypeUse) (v : Version)
    (p : Api → Prop) [DecidablePred p]
    (h : (match declared with
      | .ok t r => ((serving r t).build (.all v)).toOption.map fun api => decide (p api)
      | .error _ _ => none) = some true) :
    ∃ r t api, declared = .ok t r ∧ (serving r t).build (.all v) = .ok api ∧ p api := by
  cases declared with
  | error _ _ => cases h
  | ok t r =>
      cases hbuild : (serving r t).build (.all v) with
      | error _ => simp [Except.toOption, hbuild] at h
      | ok api => exact ⟨r, t, api, rfl, hbuild, by simpa [Except.toOption, hbuild] using h⟩

/-- Accounts have their first age before they can belong to a guild, so there is a version at
which `oneOf` has nothing to choose from. -/
theorem exported_applicators_ages :
    ∃ r t api doc, (Scope.top.declareConditional "Account" ⟨"owner", false, true⟩ Scope.ages
        Scope.guilds "").run .empty = .ok t r ∧
      (serving r t).build (.all .dated20190322) = .ok api ∧
      (api.types.keys.map QualifiedName.text).Nodup ∧ api.Exports doc ∧
      ∀ a, doc.toJson.Fills a ↔ a ≠ .oneOf := by
  obtain ⟨r, t, api, hdeclare, hbuild, hnodup, hqueries, hempty, hothers⟩ :=
    exists_serving
      ((Scope.top.declareConditional "Account" ⟨"owner", false, true⟩ Scope.ages Scope.guilds
        "").run .empty)
      .dated20190322
      (fun api => (api.types.keys.map QualifiedName.text).Nodup ∧ api.queries ≠ [] ∧
        (∃ schema ∈ api.types.values, Shape.LeavesEmpty .oneOf schema) ∧
        ∀ schema ∈ api.types.values,
          ¬Shape.LeavesEmpty .anyOf schema ∧ ¬Shape.LeavesEmpty .prefixItems schema)
      (by decide +kernel)
  obtain ⟨q, hq⟩ := List.exists_mem_of_ne_nil _ hqueries
  refine ⟨r, t, api, _, hdeclare, hbuild, hnodup, .query hq, fun a => ?_⟩
  obtain ⟨hallOf, hexact⟩ := exported_applicators hbuild (.query hq)
  cases a with
  | allOf => exact iff_of_true hallOf Applicator.noConfusion
  | anyOf =>
      refine iff_of_true ((hexact .anyOf).1 ?_) Applicator.noConfusion
      exact (noneLeavesEmpty_iff hbuild).mpr fun schema hschema => (hothers schema hschema).1
  | prefixItems =>
      refine iff_of_true ((hexact .prefixItems).1 ?_) Applicator.noConfusion
      exact (noneLeavesEmpty_iff hbuild).mpr fun schema hschema => (hothers schema hschema).2
  | oneOf =>
      refine iff_of_false (fun hfills => ?_) fun hne => hne rfl
      obtain ⟨schema, hschema, hempty⟩ := hempty
      exact (noneLeavesEmpty_iff hbuild).mp ((hexact .oneOf).2 hnodup hfills) schema hschema hempty

end ApiDefinition

/-- A tuple without elements can be declared, and the documents that show it apply
`prefixItems` to nothing. -/
theorem Scope.empty_tuple_exported :
    ∃ r t api doc, (top.declareTuple "Empty" [] "").run .empty = .ok t r ∧
      (ApiDefinition.serving r t).build (.all .classic) = .ok api ∧ api.Exports doc ∧
      ¬doc.toJson.Fills .prefixItems := by
  obtain ⟨r, t, api, hdeclare, hbuild, hnodup, hqueries, hempty⟩ :=
    ApiDefinition.exists_serving ((top.declareTuple "Empty" [] "").run .empty) .classic
      (fun api => (api.types.keys.map QualifiedName.text).Nodup ∧ api.queries ≠ [] ∧
        ∃ schema ∈ api.types.values, Shape.LeavesEmpty .prefixItems schema)
      (by decide +kernel)
  obtain ⟨q, hq⟩ := List.exists_mem_of_ne_nil _ hqueries
  refine ⟨r, t, api, _, hdeclare, hbuild, .query hq, fun hfills => ?_⟩
  obtain ⟨schema, hschema, hempty⟩ := hempty
  exact ((Api.Exports.query hq).fills_iff hnodup).mp hfills schema hschema hempty

end ApiChronicle
