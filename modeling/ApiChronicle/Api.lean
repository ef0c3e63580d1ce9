import ApiChronicle.Endpoint

/-! # ApiChronicle.Api

**Whole APIs**: their definition over all versions, and what they offer at one.

`ApiDefinition.build` fixes a version. It keeps the queries that exist there and
exactly those types that the kept queries, and on request the auxiliary types,
lead to.
-/

namespace ApiChronicle

/-- The types and endpoints of an API over all versions. -/
structure ApiDefinition where
  registry : Registry
  endpoints : List Endpoint
  /-- The languages the API answers in, in order. -/
  languages : List Language

/-- Which part of an API to build. -/
structure Selection where
  version : Version
  /-- The endpoints to keep; all of them if no names are given. -/
  endpoints : Option (SortedSet String)
  /-- Whether to add what the auxiliary types lead to. -/
  includeAuxiliary : Bool

inductive ApiError
  | definition (cause : DefinitionError)
  | resolve (cause : ResolveError)
  /-- A selected endpoint does not exist. -/
  | unknownEndpoint (name : String)
  deriving DecidableEq, Repr

def ApiError.message : ApiError → String
  | definition cause => cause.message
  | resolve cause => cause.message
  | unknownEndpoint name => s!"no endpoint named \"{name}\""

/-- What an API offers at one version. -/
structure Api where
  version : Version
  languages : List Language
  queries : List ResolvedQuery
  types : SortedMap QualifiedName Schema

namespace Api

/-- The first type, in the order of names, whose name is written like this. -/
def findType? (api : Api) (text : String) : Option (QualifiedName × Schema) :=
  api.types.entries.find? fun e => e.1.text = text

end Api

namespace Selection

/-- Everything at a version but the auxiliary types. -/
def all (version : Version) : Selection := ⟨version, none, false⟩

def keeps (s : Selection) (e : Endpoint) : Bool :=
  match s.endpoints with
  | none => true
  | some names => names.contains e.name

end Selection

namespace ApiDefinition

/-- An API without endpoints that answers in every language. -/
def ofRegistry (r : Registry) : ApiDefinition := ⟨r, [], Language.all⟩

/-- The first endpoint with a name. -/
def endpoint? (d : ApiDefinition) (name : String) : Option Endpoint :=
  d.endpoints.find? (·.name = name)

/-- The first selected name that no endpoint has. -/
def unknownEndpoint? (d : ApiDefinition) (s : Selection) : Option String :=
  (s.endpoints.map SortedMap.keys).getD [] |>.find? fun name => (d.endpoint? name).isNone

/-- The queries of the selected endpoints in order, each once. -/
def selectedQueries (d : ApiDefinition) (s : Selection) : Except ApiError (List Query) :=
  match d.unknownEndpoint? s with
  | some name => .error (.unknownEndpoint name)
  | none => do
    let queries ← ((d.endpoints.filter s.keeps).mapM fun (e : Endpoint) =>
      e.queries d.registry).mapError ApiError.definition
    return queries.flatten.eraseDups

/-- The auxiliary types that exist at a version. -/
def auxiliaryAt (d : ApiDefinition) (v : Version) : List QualifiedName :=
  d.registry.auxiliary.keys.filter fun name =>
    ((d.registry.get? name).bind (·.at? v)).isSome

def auxiliaryMention (name : QualifiedName) : Mention :=
  if name.isAlias then .alias name else .declaration name

def build (d : ApiDefinition) (s : Selection) : Except ApiError Api := do
  let queries ← d.selectedQueries s
  let resolved := queries.filterMap (·.at? s.version)
  let auxiliary := if s.includeAuxiliary then d.auxiliaryAt s.version else []
  let mentions := resolved.flatMap ResolvedQuery.mentions ++ auxiliary.map auxiliaryMention
  let outcome := d.registry.resolveMentions s.version mentions .empty
  match outcome.result with
  | .error cause => .error (.resolve cause)
  | .ok () => return ⟨s.version, d.languages, resolved, outcome.pass.types⟩

end ApiDefinition

end ApiChronicle
