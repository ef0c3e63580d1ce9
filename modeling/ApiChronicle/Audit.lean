import ApiChronicle.Api

/-! # ApiChronicle.Audit

**Checking a definition** at every version before it is used.

The audit resolves every query and every auxiliary type on its own at each
version and reports

* an endpoint whose queries cannot be made (`E001`),
* a query or an auxiliary type that fails to resolve, at the first version at
  which it does (`E002`), and
* a declared type that nothing leads to at any version (`W001`).

The last is a warning; a strict audit treats it as an error.
-/

namespace ApiChronicle

inductive Severity
  | error
  | warning
  deriving DecidableEq, Repr

def Severity.keyword : Severity → String
  | error => "error"
  | warning => "warning"

/-- What is wrong. -/
inductive Finding
  /-- The queries of an endpoint cannot be made. -/
  | unbuildable (cause : DefinitionError)
  /-- Something does not resolve at a version. -/
  | unresolvable (version : Version) (cause : ResolveError)
  /-- Nothing leads to a type. -/
  | unreachable
  deriving DecidableEq, Repr

namespace Finding

def code : Finding → String
  | unbuildable _ => "E001"
  | unresolvable _ _ => "E002"
  | unreachable => "W001"

/-- The version a finding is about. -/
def version? : Finding → Option Version
  | unresolvable version _ => some version
  | _ => none

def message : Finding → String
  | unbuildable cause => cause.message
  | unresolvable _ cause => cause.message
  | unreachable => "not reachable from any query at any schema version"

end Finding

/-- A finding and its place. -/
structure Diagnostic where
  severity : Severity
  /-- The path of a query, or the name of a type. -/
  location : String
  finding : Finding
  deriving DecidableEq, Repr

structure EndpointAudit where
  endpoint : String
  /-- The number of its queries. -/
  queries : Nat
  diagnostics : List Diagnostic
  deriving DecidableEq, Repr

structure Audit where
  endpoints : List EndpointAudit
  /-- Diagnostics about types and not about endpoints. -/
  declarations : List Diagnostic
  deriving DecidableEq, Repr

namespace EndpointAudit

/-- Whether nothing is wrong with the endpoint. -/
def isOk (e : EndpointAudit) : Bool := e.diagnostics.isEmpty

end EndpointAudit

namespace Audit

/-! ### Sums -/

def diagnostics (a : Audit) : List Diagnostic :=
  a.endpoints.flatMap (·.diagnostics) ++ a.declarations

def count (a : Audit) (severity : Severity) : Nat :=
  a.diagnostics.countP (·.severity = severity)

/-- The number of endpoints with diagnostics. -/
def failed (a : Audit) : Nat := a.endpoints.countP fun e => !e.isOk

/-- The number of endpoints without diagnostics. -/
def passed (a : Audit) : Nat := a.endpoints.length - a.failed

def isOk (a : Audit) : Bool := a.count .error = 0

/-! ### Trial resolutions -/

/-- The first version at which a trial fails, with its failure. -/
def firstFailure? (trial : Version → Outcome) (versions : List Version) :
    Option (Version × ResolveError) :=
  versions.findSome? fun v =>
    match (trial v).result with
    | .ok () => none
    | .error cause => some (v, cause)

/-- The names that the successful trials among the given ones reach. -/
def reached (trial : Version → Outcome) (versions : List Version) : List QualifiedName :=
  versions.flatMap fun v =>
    match (trial v).result with
    | .ok () => (trial v).pass.reports.map Report.name
    | .error _ => []

def succeeds (trial : Version → Outcome) (v : Version) : Bool := (trial v).result.isOk

/-- The diagnostic for the first failure of a trial, if it fails. -/
def failureOf (location : String) (trial : Version → Outcome) (versions : List Version) :
    List Diagnostic :=
  match firstFailure? trial versions with
  | some (v, cause) => [⟨.error, location, .unresolvable v cause⟩]
  | none => []

/-- A query resolved on its own. -/
def queryTrial (r : Registry) (q : Query) (v : Version) : Outcome := q.resolve r v .empty

/-- An auxiliary type resolved on its own. -/
def auxiliaryTrial (r : Registry) (name : QualifiedName) (v : Version) : Outcome :=
  r.resolve v (ApiDefinition.auxiliaryMention name) .empty

/-! ### The audit -/

def ofEndpoint (r : Registry) (e : Endpoint) : EndpointAudit :=
  match e.queries r with
  | .error cause => ⟨e.name, 0, [⟨.error, e.path, .unbuildable cause⟩]⟩
  | .ok queries =>
    ⟨e.name, queries.length,
      queries.flatMap fun q => failureOf q.location (queryTrial r q) Version.all⟩

/-- The names that the queries of an endpoint lead to at some version. -/
def reachedByEndpoint (r : Registry) (e : Endpoint) : List QualifiedName :=
  match e.queries r with
  | .error _ => []
  | .ok queries => queries.flatMap fun q => reached (queryTrial r q) Version.all

/-- The versions with an auxiliary type, oldest first. -/
def auxiliaryVersions (r : Registry) (name : QualifiedName) : List Version :=
  Version.all.filter fun v => ((r.get? name).bind (·.at? v)).isSome

/-- The names that an auxiliary type leads to before its first failure. -/
def reachedByAuxiliary (r : Registry) (name : QualifiedName) : List QualifiedName :=
  reached (auxiliaryTrial r name)
    ((auxiliaryVersions r name).takeWhile (succeeds (auxiliaryTrial r name)))

/-- Every name that something leads to. -/
def reachedNames (d : ApiDefinition) : List QualifiedName :=
  d.endpoints.flatMap (reachedByEndpoint d.registry) ++
    d.registry.auxiliary.keys.flatMap (reachedByAuxiliary d.registry)

/-- The diagnostics about unreachable types, in the order of their names. -/
def unreachableTypes (d : ApiDefinition) (strict : Bool) : List Diagnostic :=
  let names := reachedNames d
  (d.registry.types.keys.filter (· ∉ names)).map fun name =>
    ⟨if strict then .error else .warning, name.text, .unreachable⟩

def ofDefinition (d : ApiDefinition) (strict : Bool) : Audit :=
  let r := d.registry
  { endpoints := d.endpoints.map (ofEndpoint r)
    declarations :=
      (r.auxiliary.keys.flatMap fun name =>
        failureOf name.text (auxiliaryTrial r name) (auxiliaryVersions r name)) ++
      unreachableTypes d strict }

end Audit

end ApiChronicle
