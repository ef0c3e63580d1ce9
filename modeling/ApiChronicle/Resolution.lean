import ApiChronicle.Registry

/-! # ApiChronicle.Resolution

Finding **everything a type leads to** at one version.

Resolving a name looks it up, resolves the names its declaration mentions, and
then reports the resolved declaration. A `Pass` remembers which names it has met
at which version, so each is reported at most once and recursive declarations
come to an end: a name is marked before its declaration is entered, and a marked
name is not entered again.

A pass belongs to a series of resolutions. It is kept when one of them fails,
marks included.

The depth of nested declarations is bounded by the number of declared types,
since every declaration that is entered has just been marked. `Registry.depth` is
that bound, and it is the amount of recursion `resolve` is given.
-/

namespace ApiChronicle

inductive ResolveError
  /-- No type of this name is declared. -/
  | missing (name : QualifiedName)
  /-- The type does not exist at the version. -/
  | unavailable (name : QualifiedName) (version : Version)
  /-- The type should have been an alias. -/
  | notAlias (name : QualifiedName) (actual : ShapeKind)
  deriving DecidableEq, Repr

def ResolveError.message : ResolveError → String
  | missing name => s!"type {name.text} is not registered"
  | unavailable name version =>
    s!"type {name.text} does not exist at schema version {version.text}"
  | notAlias name actual => s!"type {name.text} is a {actual.keyword}, expected alias"

/-- The declaration of a type at a version. -/
def Registry.declarationAt (r : Registry) (name : QualifiedName) (v : Version) :
    Except ResolveError Declaration :=
  match r.get? name with
  | none => .error (.missing name)
  | some history =>
    match history.at? v with
    | none => .error (.unavailable name v)
    | some declaration => .ok declaration

/-- How deep declarations can be nested while they are resolved, the last look at
a marked or undeclared name included. -/
def Registry.depth (r : Registry) : Nat := r.size + 1

/-- A type that was reached. -/
inductive Report
  | alias (name : QualifiedName) (shape : AliasShape)
  | declaration (name : QualifiedName) (schema : Schema)
  deriving DecidableEq

def Report.name : Report → QualifiedName
  | .alias name _ => name
  | .declaration name _ => name

/-- What a series of resolutions has met so far. -/
structure Pass where
  /-- The names that were met, each with the version it was met at. -/
  marks : List (QualifiedName × Version)
  /-- The types that were reached, in the order in which they were finished. -/
  reports : List Report
  deriving DecidableEq

namespace Pass

def empty : Pass := ⟨[], []⟩

/-- Whether a name was met at a version. -/
def isMarked (p : Pass) (name : QualifiedName) (v : Version) : Bool := (name, v) ∈ p.marks

def mark (p : Pass) (name : QualifiedName) (v : Version) : Pass :=
  { p with marks := (name, v) :: p.marks }

def report (p : Pass) (r : Report) : Pass := { p with reports := p.reports ++ [r] }

end Pass

/-- How a resolution ended, and the pass after it. -/
structure Outcome where
  result : Except ResolveError Unit
  pass : Pass

namespace Outcome

def ok (p : Pass) : Outcome := ⟨.ok (), p⟩

def fail (e : ResolveError) (p : Pass) : Outcome := ⟨.error e, p⟩

/-- Go on after a success; stop at a failure. -/
def andThen (o : Outcome) (next : Pass → Outcome) : Outcome :=
  match o.result with
  | .ok () => next o.pass
  | .error _ => o

end Outcome

namespace Registry

/-- Resolve the name of an alias. The mark is set once the name has turned out to
be one. -/
def resolveAlias (r : Registry) (v : Version) (name : QualifiedName) (p : Pass) : Outcome :=
  if p.isMarked name v then .ok p
  else match r.declarationAt name v with
    | .error e => .fail e p
    | .ok (.alias shape) => .ok ((p.mark name v).report (.alias name shape))
    | .ok declaration => .fail (.notAlias name declaration.kind) p

/-- Resolve a list of mentions from left to right, up to the first failure. -/
def resolveAll (resolve : Mention → Pass → Outcome) : List Mention → Pass → Outcome
  | [], p => .ok p
  | m :: rest, p => (resolve m p).andThen (resolveAll resolve rest)

/-- Resolve a mention, entering at most `depth` nested declarations. -/
def resolveWithin (r : Registry) (v : Version) : Nat → Mention → Pass → Outcome
  | _, .alias name, p => r.resolveAlias v name p
  | 0, .declaration _, p => .ok p
  | depth + 1, .declaration name, p =>
    if p.isMarked name v then .ok p
    else
      let p := p.mark name v
      match r.declarationAt name v with
      | .error e => .fail e p
      | .ok (.alias shape) => .ok (p.report (.alias name shape))
      | .ok declaration =>
        let schema := declaration.resolved
        (resolveAll (r.resolveWithin v depth) schema.mentions p).andThen fun p =>
          .ok (p.report (.declaration name schema))

def resolve (r : Registry) (v : Version) (m : Mention) (p : Pass) : Outcome :=
  r.resolveWithin v r.depth m p

/-- Resolve every mention of a list, from left to right. -/
def resolveMentions (r : Registry) (v : Version) (ms : List Mention) (p : Pass) : Outcome :=
  resolveAll (r.resolve v) ms p

/-- Resolve the names a type use mentions. -/
def resolveUse (r : Registry) (v : Version) (type : TypeUse) (p : Pass) : Outcome :=
  r.resolveMentions v type.mentions p

end Registry

/-! ### Collected types -/

namespace Pass

/-- The aliases that were reached. -/
def aliases (p : Pass) : SortedMap QualifiedName AliasShape :=
  .ofList (p.reports.filterMap fun
    | .alias name shape => some (name, shape)
    | .declaration _ _ => none)

/-- The declarations that were reached. -/
def declarations (p : Pass) : SortedMap QualifiedName Schema :=
  .ofList (p.reports.filterMap fun
    | .alias _ _ => none
    | .declaration name schema => some (name, schema))

/-- Everything that was reached, by name. -/
def types (p : Pass) : SortedMap QualifiedName Schema :=
  p.aliases.entries.foldl (fun types e => types.insert e.1 (.alias e.2)) p.declarations

end Pass

end ApiChronicle
