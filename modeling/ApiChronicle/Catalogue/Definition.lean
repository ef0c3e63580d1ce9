import ApiChronicle.Api
import ApiChronicle.Catalogue.Reader
import ApiChronicle.Catalogue.References

/-! # ApiChronicle.Catalogue.Definition

The **API a catalogue describes**.

Aliases are declared first, then the types in the order of the catalogue, those
inside a type before the type itself. The auxiliary types and the endpoints come
last. The first fault ends the work.
-/

namespace ApiChronicle

inductive LoadError
  /-- There is no such file. -/
  | notFound (path : String)
  /-- The file holds no text that can be read. -/
  | unreadable (path : String)
  /-- The text is no catalogue. -/
  | invalidJson
  /-- What the catalogue says is at fault. -/
  | definition (cause : DefinitionError)
  deriving DecidableEq, Repr

namespace LoadError

def message : LoadError → String
  | notFound path => s!"file not found: {path}"
  | unreadable path => s!"cannot read {path}"
  | invalidJson => "invalid JSON"
  | definition cause => s!"invalid definition: {cause.message}"

/-- The exit code that tells faults of files from faults of content. -/
def exitCode : LoadError → Nat
  | notFound _ | unreadable _ => 3
  | invalidJson | definition _ => 2

end LoadError

namespace Catalogue

/-! ### Members -/

/-- A property under its serial name. -/
def PropertyEntry.property (refs : References) (scope : List String) (serialName : String)
    (e : PropertyEntry) : Except DefinitionError (Dated Property) := do
  let type ← refs.resolve scope e.type
  let modifiers : List (Option PropertyModifier) :=
    [some (.serialName serialName), if e.optional then some .optional else none,
     e.mandatedBy.map .mandatedBy, if e.deprecated then some .deprecated else none,
     if e.inline then some .inline else none, if e.lenient then some .lenient else none,
     if e.localized then some .localized else none, e.since.map .since, e.stop.map .stop]
  return (modifiers.filterMap id).foldl PropertyModifier.apply
    (Property.make (e.name.getD serialName) type e.description)

/-- An interpretation under its key. -/
def InterpretationEntry.interpretation (refs : References) (scope : List String) (key : String)
    (e : InterpretationEntry) : Except DefinitionError (Dated Interpretation) := do
  let type ← refs.resolve scope e.type
  let modifiers : List (Option InterpretationModifier) :=
    [if e.deprecated then some .deprecated else none, e.nestProperty.map .nestProperty,
     e.since.map .since, e.stop.map .stop]
  return (modifiers.filterMap id).foldl InterpretationModifier.apply
    (Interpretation.make key type e.description)

/-- The members of a listing, made one after the other. -/
def membersOf {ε α : Type} (make : String → ε → Except DefinitionError α)
    (listing : Listing (List ε)) : Except DefinitionError (List α) :=
  (listing.flatMap fun (key, entries) => entries.map fun e => (key, e)).mapM
    fun (key, e) => make key e

def ElementEntry.element (refs : References) (scope : List String) (e : ElementEntry) :
    Except DefinitionError TupleElement := do
  return TupleElement.make e.name (← refs.resolve scope e.type) e.description

/-! ### Types -/

/-- Declare the type with a key inside the declarations `parent`. -/
def TypeBody.declare (refs : References) (parent : List String) (key description : String)
    (body : TypeBody) (r : Registry) : Except DefinitionError Registry := do
  let scope : Scope := ⟨parent.map Name.derive⟩
  let path := parent ++ [key]
  match body with
  | .record properties => do
    let properties ← membersOf (PropertyEntry.property refs path) properties
    ((scope.declareRecord key properties description).run r).kept
  | .conditional selector shared interpretations => do
    let shared ← membersOf (PropertyEntry.property refs path) shared
    let interpretations ←
      membersOf (InterpretationEntry.interpretation refs path) interpretations
    ((scope.declareConditional key selector shared interpretations description).run r).kept
  | .enumeration underlying values =>
    match Primitive.named? underlying with
    | none => .error (.unknownType underlying (".".intercalate path))
    | some p => ((scope.declareEnum key p values description).run r).kept
  | .tuple elements => do
    let elements ← elements.mapM (ElementEntry.element refs path)
    ((scope.declareTuple key elements description).run r).kept

mutual

/-- Declare a type after those inside it. -/
def declareType (refs : References) (parent : List String) (key : String) :
    TypeEntry → Registry → Except DefinitionError Registry
  | .mk description body nested, r => do
    let r ← declareTypes refs (parent ++ [key]) nested r
    body.declare refs parent key description r

def declareTypes (refs : References) (parent : List String) :
    List (String × TypeEntry) → Registry → Except DefinitionError Registry
  | [], r => .ok r
  | (key, type) :: rest, r => do
    let r ← declareType refs parent key type r
    declareTypes refs parent rest r

end

def AliasEntry.declare (key : String) (e : AliasEntry) (r : Registry) :
    Except DefinitionError Registry :=
  match Primitive.named? e.primitive with
  | none => .error (.unknownType e.primitive key)
  | some p => ((Scope.declareAlias key p e.description).run r).kept

/-- Make the type a reference means auxiliary. -/
def markAuxiliary (refs : References) (reference : String) (r : Registry) :
    Except DefinitionError Registry := do
  match ← refs.named [] reference with
  | .alias name | .declaration name => ((Registry.markAuxiliary name).run r).kept
  | _ => .error (.unknownType reference "auxiliary")

/-! ### Endpoints -/

def EndpointEntry.endpoint (refs : References) (e : EndpointEntry) :
    Except DefinitionError Endpoint := do
  let pathParameters ← e.pathParameters.mapM fun (key, p) => do
    return PathParameter.make key (← refs.resolve [] p.type) p.description
  let queryParameters ← e.queryParameters.mapM fun (key, p) => do
    return QueryParameter.make key (← refs.resolve [] p.type) p.description p.optional
  let written := (e.schema.map fun type => (Version.classic, type)).toList ++ e.schemas
  let schemas ← written.mapM fun (since, type) => do
    return (since, ← refs.resolve [] type)
  return {
    name := e.name
    path := e.path
    summary := e.summary
    cacheSeconds := e.cacheSeconds
    security := e.security
    isLocalized := e.localized
    since := e.since.getD .classic
    stop := e.stop
    pathParameters := pathParameters
    queryParameters := queryParameters
    schemas := schemas
    index := e.index }

/-! ### Catalogues -/

/-- The declared types of a catalogue, without auxiliary ones. -/
def declarations (c : Catalogue) : Except DefinitionError Registry := do
  let r ← c.aliases.foldlM (fun r (key, e) => AliasEntry.declare key e r) Registry.empty
  declareTypes (.ofCatalogue c) [] c.types r

/-- The API a catalogue describes. -/
def definition (c : Catalogue) : Except DefinitionError ApiDefinition := do
  let refs := References.ofCatalogue c
  let r ← c.declarations
  let r ← c.auxiliary.foldlM (fun r reference => markAuxiliary refs reference r) r
  let endpoints ← c.endpoints.mapM (EndpointEntry.endpoint refs)
  return ⟨r, endpoints, Language.distinct (c.languages.getD Language.all)⟩

end Catalogue

namespace ApiDefinition

/-- The API that the text of a catalogue describes. -/
def ofText (text : String) : Except LoadError ApiDefinition :=
  match Catalogue.ofText? text with
  | none => .error .invalidJson
  | some c => c.definition.mapError .definition

end ApiDefinition

end ApiChronicle
