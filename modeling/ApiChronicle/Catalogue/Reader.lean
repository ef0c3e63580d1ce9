import ApiChronicle.Catalogue
import ApiChronicle.Vocabulary.Written

/-! # ApiChronicle.Catalogue.Reader

Reading **catalogues from JSON texts**.

A record is written as an object, or as an array of its fields in order. Fields
with a default may be left out, unknown members of an object are skipped, and a
field that is given twice is refused.

A reader opens brackets as it goes and skips what it does not know without looking
inside. The parts whose form is not known beforehand are different: a type is told
by its `kind`, which may come last, and a type reference by what it turns out to
hold. Such a part is read as a whole before it is looked at, so everything in it
must be readable; `whole?` says so, given the number of brackets around the part.
-/

namespace ApiChronicle.Catalogue

open Json (Tree)

/-- Read a part as a whole inside `around` open brackets, and then look at it. -/
def whole? {α : Type} (around : Nat) (part : Tree → Option α) (t : Tree) : Option α :=
  if t.isReadable (Tree.maxDepth - around) then part t else none

/-- Several things, or one. -/
def oneOrMany? {α : Type} (part : Tree → Option α) (t : Tree) : Option (List α) :=
  t.list? part <|> (fun x => [x]) <$> part t

/-! ### Types -/

/-- More than the depth of any tree that can be read as a whole. -/
def depthLimit : Nat := Tree.maxDepth + 1

namespace TypeRef

/-- A reference by text, else an array, else a map. -/
def ofTree? : Nat → Tree → Option TypeRef
  | 0, _ => none
  | depth + 1, t =>
    let array? := do
      let fields ← t.members? ["array", "nullable"]
      return array (← fields.required? "array" (ofTree? depth))
        (← fields.optional? "nullable" false Tree.bool?)
    let map? := do
      let fields ← t.members? ["keys", "values", "nullable"]
      return map (← fields.required? "keys" (ofTree? depth))
        (← fields.required? "values" (ofTree? depth))
        (← fields.optional? "nullable" false Tree.bool?)
    named <$> t.text? <|> array? <|> map?

end TypeRef

/-- A reference inside a part that has been read as a whole. -/
def typeRef? (t : Tree) : Option TypeRef := TypeRef.ofTree? depthLimit t

def PropertyEntry.ofTree? (t : Tree) : Option PropertyEntry := do
  let fields ← t.record?
    ["type", "name", "description", "optional", "mandated_by", "deprecated", "inline",
     "lenient", "localized", "since", "until"]
  return {
    type := ← fields.required? "type" typeRef?
    name := ← fields.optional? "name" none (Tree.nullable? Tree.text?)
    description := ← fields.optional? "description" "" Tree.text?
    optional := ← fields.optional? "optional" false Tree.bool?
    mandatedBy := ← fields.optional? "mandated_by" none (Tree.nullable? TokenScope.ofTree?)
    deprecated := ← fields.optional? "deprecated" false Tree.bool?
    inline := ← fields.optional? "inline" false Tree.bool?
    lenient := ← fields.optional? "lenient" false Tree.bool?
    localized := ← fields.optional? "localized" false Tree.bool?
    since := ← fields.optional? "since" none (Tree.nullable? Version.ofTree?)
    stop := ← fields.optional? "until" none (Tree.nullable? Version.ofTree?) }

def InterpretationEntry.ofTree? (t : Tree) : Option InterpretationEntry := do
  let fields ← t.record?
    ["type", "description", "nest_property", "deprecated", "since", "until"]
  return {
    type := ← fields.required? "type" typeRef?
    description := ← fields.optional? "description" "" Tree.text?
    nestProperty := ← fields.optional? "nest_property" none (Tree.nullable? Tree.text?)
    deprecated := ← fields.optional? "deprecated" false Tree.bool?
    since := ← fields.optional? "since" none (Tree.nullable? Version.ofTree?)
    stop := ← fields.optional? "until" none (Tree.nullable? Version.ofTree?) }

/-- A value of an enumeration: a text, or a text with a description. -/
def enumValue? (t : Tree) : Option EnumValue :=
  let described? := do
    let fields ← t.members? ["value", "description"]
    return (⟨← fields.required? "value" Tree.text?,
      some (← fields.required? "description" Tree.text?)⟩ : EnumValue)
  (fun value => ⟨value, none⟩) <$> t.text? <|> described?

def ElementEntry.ofTree? (t : Tree) : Option ElementEntry := do
  let fields ← t.record? ["name", "type", "description"]
  return {
    name := ← fields.required? "name" Tree.text?
    type := ← fields.required? "type" typeRef?
    description := ← fields.optional? "description" "" Tree.text? }

def properties? : Tree → Option (Listing (List PropertyEntry)) :=
  Tree.listing? (oneOrMany? PropertyEntry.ofTree?)

/-- The tag of a type and the rest of it: the member `kind`, or the first element
of an array. -/
def tagged? : Tree → Option (Tree × Tree)
  | .array (tag :: rest) => some (tag, .array rest)
  | .object members =>
    let isTag : List Json.StringPiece × Tree → Bool := fun m =>
      Json.StringPiece.text? m.1 = some "kind"
    match members.filter isTag with
    | [(_, tag)] => some (tag, .object (members.filter fun m => !isTag m))
    | _ => none
  | _ => none

/-- The kinds of types, in the order of their numbers. -/
def kinds : List String := ["record", "conditional", "enum", "tuple"]

def kindByName? (t : Tree) : Option String := t.text?

/-- A kind by name or by number, as inside a part that has been read as a whole. -/
def kindByNameOrNumber? (t : Tree) : Option String :=
  t.text? <|> t.unsigned?.bind fun n => kinds[n]?

namespace TypeEntry

/-- A type, whose tag is read by `kind?`. -/
def ofTree? (kind? : Tree → Option String) : Nat → Tree → Option TypeEntry
  | 0, _ => none
  | depth + 1, t => do
    let (tag, t) ← tagged? t
    let nested? := Tree.listing? (ofTree? kindByNameOrNumber? depth)
    match ← kind? tag with
    | "record" => do
      let fields ← t.record? ["description", "properties", "nested"]
      return mk (← fields.optional? "description" "" Tree.text?)
        (.record (← fields.optional? "properties" [] properties?))
        (← fields.optional? "nested" [] nested?)
    | "conditional" => do
      let fields ← t.record?
        ["description", "selector", "side_property", "nested_interpretations", "shared",
         "interpretations", "nested"]
      let selector : Selector :=
        { key := ← fields.required? "selector" Tree.text?
          inSideProperty := ← fields.optional? "side_property" false Tree.bool?
          nestedInterpretations :=
            ← fields.optional? "nested_interpretations" false Tree.bool? }
      return mk (← fields.optional? "description" "" Tree.text?)
        (.conditional selector (← fields.optional? "shared" [] properties?)
          (← fields.required? "interpretations"
            (Tree.listing? (oneOrMany? InterpretationEntry.ofTree?))))
        (← fields.optional? "nested" [] nested?)
    | "enum" => do
      let fields ← t.record? ["description", "type", "values"]
      return mk (← fields.optional? "description" "" Tree.text?)
        (.enumeration (← fields.optional? "type" "string" Tree.text?)
          (← fields.required? "values" (Tree.list? enumValue?)))
        []
    | "tuple" => do
      let fields ← t.record? ["description", "elements"]
      return mk (← fields.optional? "description" "" Tree.text?)
        (.tuple (← fields.required? "elements" (Tree.list? ElementEntry.ofTree?)))
        []
    | _ => none

end TypeEntry

/-! ### Endpoints and catalogues -/

def AliasEntry.ofTree? (t : Tree) : Option AliasEntry := do
  let fields ← t.record? ["type", "description"]
  return {
    primitive := ← fields.required? "type" Tree.text?
    description := ← fields.optional? "description" "" Tree.text? }

/-- A parameter. It stands inside the brackets of the catalogue, of the endpoints,
of its endpoint and of the parameters. -/
def ParameterEntry.ofTree? (t : Tree) : Option ParameterEntry := do
  let fields ← t.record? ["type", "description", "optional"]
  return {
    type := ← fields.required? "type" (whole? 5 typeRef?)
    description := ← fields.optional? "description" "" Tree.text?
    optional := ← fields.optional? "optional" false Tree.bool? }

/-- A response type and the version it holds from. It stands inside as many
brackets as a parameter. -/
def schemaOverride? (t : Tree) : Option (Version × TypeRef) := do
  let fields ← t.record? ["since", "type"]
  return (← fields.required? "since" Version.ofTree?,
    ← fields.required? "type" (whole? 5 typeRef?))

/-- The ways to ask an index. -/
def index? (t : Tree) : Option Index := do
  let fields ← t.record? ["id_key", "queries"]
  return {
    idKey := ← fields.optional? "id_key" "id" Tree.text?
    queries := ← fields.required? "queries" (Tree.list? IndexQuery.ofTree?) }

/-- An endpoint. It stands inside the brackets of the catalogue and of the
endpoints. -/
def EndpointEntry.ofTree? (t : Tree) : Option EndpointEntry := do
  let fields ← t.record?
    ["name", "path", "summary", "cache_seconds", "security", "localized", "since", "until",
     "path_parameters", "query_parameters", "schema", "schemas", "index"]
  return {
    name := ← fields.required? "name" Tree.text?
    path := ← fields.required? "path" Tree.text?
    summary := ← fields.optional? "summary" "" Tree.text?
    cacheSeconds := ← fields.optional? "cache_seconds" none (Tree.nullable? Tree.unsigned?)
    security := ← fields.optional? "security" [] (Tree.list? TokenScope.ofTree?)
    localized := ← fields.optional? "localized" false Tree.bool?
    since := ← fields.optional? "since" none (Tree.nullable? Version.ofTree?)
    stop := ← fields.optional? "until" none (Tree.nullable? Version.ofTree?)
    pathParameters :=
      ← fields.optional? "path_parameters" [] (Tree.listing? ParameterEntry.ofTree?)
    queryParameters :=
      ← fields.optional? "query_parameters" [] (Tree.listing? ParameterEntry.ofTree?)
    schema := ← fields.optional? "schema" none (Tree.nullable? (whole? 3 typeRef?))
    schemas := ← fields.optional? "schemas" [] (Tree.list? schemaOverride?)
    index := ← fields.optional? "index" none (Tree.nullable? index?) }

/-- A catalogue. Its types stand inside the brackets of the catalogue and of the
types. -/
def ofTree? (t : Tree) : Option Catalogue := do
  let fields ← t.record? ["languages", "aliases", "types", "endpoints", "auxiliary"]
  return {
    languages := ← fields.optional? "languages" none
      (Tree.nullable? (Tree.list? Language.ofTree?))
    aliases := ← fields.optional? "aliases" [] (Tree.listing? AliasEntry.ofTree?)
    types := ← fields.optional? "types" []
      (Tree.listing? (whole? 2 (TypeEntry.ofTree? kindByName? depthLimit)))
    endpoints := ← fields.optional? "endpoints" [] (Tree.list? EndpointEntry.ofTree?)
    auxiliary := ← fields.optional? "auxiliary" [] (Tree.list? Tree.text?) }

def ofText? (text : String) : Option Catalogue := (Tree.ofText? text).bind ofTree?

end ApiChronicle.Catalogue
