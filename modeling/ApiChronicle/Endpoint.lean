import ApiChronicle.Query

/-! # ApiChronicle.Endpoint

**Endpoints** and the queries they offer.

A plain endpoint offers one query. An endpoint with an index offers one query for
each way to ask the index; all of them derive from the query the endpoint would
offer without its index, and share the type of the elements' IDs.
-/

namespace ApiChronicle

/-- The ways to ask an index. -/
structure Index where
  /-- The serial name of the property that identifies an element. -/
  idKey : String
  queries : List IndexQuery
  deriving DecidableEq, Repr

structure Endpoint where
  name : String
  path : String
  summary : String
  cacheSeconds : Option Nat
  security : List TokenScope
  isLocalized : Bool
  /-- The first version with the endpoint. -/
  since : Version
  /-- The first version without it again. -/
  stop : Option Version
  pathParameters : List PathParameter
  queryParameters : List QueryParameter
  /-- The response types, each with the version it holds from. -/
  schemas : List (Version × TypeUse)
  index : Option Index
  deriving DecidableEq, Repr

namespace Endpoint

/-- An endpoint of every version, without parameters and responses. -/
def make (name path : String) : Endpoint :=
  { name := name
    path := path
    summary := ""
    cacheSeconds := none
    security := []
    isLocalized := false
    since := .classic
    stop := none
    pathParameters := []
    queryParameters := []
    schemas := []
    index := none }

/-! ### The base query -/

/-- The first version that two neighbours of a list both start at. -/
def repeatedSince? : List (Version × TypeUse) → Option Version
  | (a, _) :: (b, type) :: rest => if a = b then some b else repeatedSince? ((b, type) :: rest)
  | _ => none

/-- The response types over time: each holds until the next one starts, and the
outer ones are stretched or cut to the endpoint's window. -/
def schemaTimeline (e : Endpoint) (window : Window) : Except TimelineError (Timeline TypeUse) := do
  let schemas := e.schemas.mergeSort fun a b => a.1 ≤ b.1
  match repeatedSince? schemas with
  | some since => .error (.duplicateSince since)
  | none =>
    let draft ← schemas.foldlM
      (fun draft (since, type) => ((Timeline.Draft.add type since none).run draft).kept)
      Timeline.Draft.empty
    let timeline ← draft.build
    timeline.restrict window

def request (e : Endpoint) : Request :=
  { path := e.path
    endpoint := e.name
    summary := e.summary
    pathParameters := .ofList (e.pathParameters.map fun p => (p.key, p))
    queryParameters := .ofList (e.queryParameters.map fun p => (p.key, p))
    suffix := none
    cacheSeconds := e.cacheSeconds
    security := TokenScope.distinct e.security
    isLocalized := e.isLocalized
    details := none }

/-- The query the endpoint offers without its index. -/
def baseQuery (e : Endpoint) : Except DefinitionError Query := do
  let window ← (Window.ofBounds e.since e.stop).mapError .timeline
  let schema ← (e.schemaTimeline window).mapError .timeline
  return ⟨e.request, window, schema⟩

/-! ### IDs -/

/-- The type of an ID property, checked to identify elements. -/
def checkIdType (r : Registry) (path key : String) (type : TypeUse) :
    Except DefinitionError TypeUse :=
  match type with
  | .primitive p =>
    if p.isIdentifier then .ok type else .error (.invalidIdType path key (.primitive p))
  | .alias name =>
    match (r.get? name).map History.first with
    | some (.alias shape) =>
      if shape.primitive.isIdentifier then .ok type
      else .error (.invalidIdType path key (.aliasOf name shape.primitive))
    | _ => .error (.missingDeclaration name)
  | _ => .error (.invalidIdType path key (.structured type))

/-- The type of the ID property of a query's response. The classic response and
the classic declaration of its type count; where there is none, the earliest. -/
def idType (r : Registry) (base : Query) (key : String) : Except DefinitionError TypeUse :=
  let path := base.request.path
  match (base.schema.at? .classic).getD base.schema.first.value with
  | .declaration name =>
    match r.get? name with
    | none => .error (.missingDeclaration name)
    | some history =>
      let declaration := (history.at? .classic).getD history.first
      match declaration.properties? with
      | none => .error (.invalidIdSchema path declaration.kind.keyword)
      | some properties =>
        match properties.get? key with
        | none => .error (.missingIdProperty path key)
        | some property => checkIdType r path key property.member.type
  | schema => .error (.invalidIdSchema path schema.form)

/-! ### Index queries -/

/-- The parameters by which an index query names the elements it asks for. -/
def indexParameters (idType : TypeUse) : IndexQuery → List QueryParameter
  | .ids => []
  | .byId => [.make "id" idType "The ID of the requested element." false]
  | .byIds supportsAll =>
    let description :=
      if supportsAll then
        s!"The IDs of the requested elements, or \"{allIdsSentinel}\" to request every element."
      else "The IDs of the requested elements."
    [.make "ids" (.arrayOf idType) description false]
  | .byPage =>
    [.make "page" (.primitive .integer) "The index of the requested page." false,
     .make "page_size" (.primitive .integer) "The size of the requested page." true]

def indexSchema (idType : TypeUse) : IndexQuery → TypeUse → TypeUse
  | .ids, _ => .arrayOf idType
  | .byId, element => element
  | .byIds _, element => .arrayOf element
  | .byPage, element => .arrayOf element

/-- One way to ask an index, made from the query of its elements. -/
def indexQuery (base : Query) (idType : TypeUse) (query : IndexQuery) : Query :=
  { base with
    request :=
      { base.request with
        suffix := some query.suffix
        details := some ⟨query, idType⟩
        queryParameters := (indexParameters idType query).foldl
          (fun parameters p => parameters.insert p.key p) base.request.queryParameters }
    schema := base.schema.map (indexSchema idType query) }

def queries (e : Endpoint) (r : Registry) : Except DefinitionError (List Query) := do
  let base ← e.baseQuery
  match e.index with
  | none => return [base]
  | some index =>
    let idType ← idType r base index.idKey
    return index.queries.map (indexQuery base idType)

end Endpoint

end ApiChronicle
