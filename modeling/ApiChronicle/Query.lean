import ApiChronicle.Resolution

/-! # ApiChronicle.Query

**Queries**: single calls that a client can make.

What a query asks is the same at every version (`Request`). Whether it exists and
what it answers with depends on the version: a `Query` carries a window and a
timeline of response types. `Query.at?` fixes a version, and resolving a query
means resolving the names that its form at the version mentions.
-/

namespace ApiChronicle

structure PathParameter where
  key : String
  type : TypeUse
  name : Name
  description : String
  deriving DecidableEq, Repr

structure QueryParameter where
  key : String
  type : TypeUse
  name : Name
  description : String
  isOptional : Bool
  deriving DecidableEq, Repr

def PathParameter.make (key : String) (type : TypeUse) (description : String) : PathParameter :=
  ⟨key, type, Name.derive key, description⟩

/-- A query parameter named by its key. -/
def QueryParameter.make (key : String) (type : TypeUse) (description : String)
    (isOptional : Bool) : QueryParameter :=
  ⟨key, type, Name.derive key, description, isOptional⟩

/-- How a query asks an index for elements. -/
structure IndexDetails where
  query : IndexQuery
  /-- The type of the elements' IDs. -/
  idType : TypeUse
  deriving DecidableEq, Repr

/-- What a query asks, which is the same at every version. -/
structure Request where
  path : String
  /-- The name of the endpoint the query belongs to. -/
  endpoint : String
  summary : String
  pathParameters : SortedMap String PathParameter
  queryParameters : SortedMap String QueryParameter
  /-- What tells the query from others of its endpoint. -/
  suffix : Option String
  cacheSeconds : Option Nat
  /-- The scopes a token needs, in order. -/
  security : List TokenScope
  isLocalized : Bool
  details : Option IndexDetails
  deriving DecidableEq

/-- A query over time. -/
structure Query where
  request : Request
  /-- The versions with the query. -/
  window : Window
  /-- The types of the response. -/
  schema : Timeline TypeUse
  deriving DecidableEq

/-- A query at one version. -/
structure ResolvedQuery where
  request : Request
  schema : TypeUse
  deriving DecidableEq

/-- The names a query mentions: those of its parameters, of its ID type and of its
response. -/
def ResolvedQuery.mentions (q : ResolvedQuery) : List Mention :=
  q.request.pathParameters.values.flatMap (fun p => p.type.mentions) ++
    (q.request.queryParameters.values.flatMap (fun p => p.type.mentions) ++
      ((q.request.details.map fun d => d.idType.mentions).getD [] ++ q.schema.mentions))

namespace Query

def at? (q : Query) (v : Version) : Option ResolvedQuery :=
  if q.window.contains v then (q.schema.at? v).map fun schema => ⟨q.request, schema⟩ else none

/-- Resolve a query at a version. A query that does not exist there leads to
nothing. -/
def resolve (q : Query) (r : Registry) (v : Version) (p : Pass) : Outcome :=
  match q.at? v with
  | none => .ok p
  | some resolved => r.resolveMentions v resolved.mentions p

/-- The path, with the suffix if there is one. -/
def location (q : Query) : String :=
  match q.request.suffix with
  | some suffix => s!"{q.request.path} ({suffix})"
  | none => q.request.path

end Query

end ApiChronicle
