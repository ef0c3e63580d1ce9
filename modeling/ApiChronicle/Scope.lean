import ApiChronicle.Registry

/-! # ApiChronicle.Scope

**Declaring types** inside other declarations.

A `Scope` is the path of declarations around the one that is made; it gives the
new type its qualified name and puts it into a registry. The members of records
and conditionals may be dated. The declaration is then cut into one snapshot for
each *run* of versions with the same live members: `liveRuns` makes the cut and
`snapshot` collects the members of a run by key.
-/

namespace ApiChronicle

/-! ### Members and their modifiers -/

/-- What can be said about a property beyond its name and type. -/
inductive PropertyModifier
  | deprecated
  | inline
  | lenient
  | localized
  | optional
  | mandatedBy (scope : TokenScope)
  | serialName (serialName : String)
  | since (version : Version)
  | stop (version : Version)
  deriving DecidableEq, Repr

/-- What can be said about an interpretation beyond its key and type. -/
inductive InterpretationModifier
  | deprecated
  | nestProperty (key : String)
  | since (version : Version)
  | stop (version : Version)
  deriving DecidableEq, Repr

/-- A required property of every version. Its serial name is the name in
snake case. -/
def Property.make (spelling : String) (type : TypeUse) (description : String) :
    Dated Property :=
  let name := Name.derive spelling
  .always
    { name := name
      type := type
      serialName := name.snakeCase
      description := description
      optionality := .required
      isDeprecated := false
      isInline := false
      isLenient := false
      isLocalized := false }

/-- An interpretation of every version, selected by `key`. -/
def Interpretation.make (key : String) (type : TypeUse) (description : String) :
    Dated Interpretation :=
  .always
    { key := key
      nestProperty := none
      type := type
      description := description
      isDeprecated := false }

def TupleElement.make (spelling : String) (type : TypeUse) (description : String) :
    TupleElement :=
  ⟨Name.derive spelling, type, description⟩

/-- Apply a modifier; what it says replaces what was said before. -/
def PropertyModifier.apply (d : Dated Property) : PropertyModifier → Dated Property
  | deprecated => { d with member := { d.member with isDeprecated := true } }
  | inline => { d with member := { d.member with isInline := true } }
  | lenient => { d with member := { d.member with isLenient := true } }
  | localized => { d with member := { d.member with isLocalized := true } }
  | optional => { d with member := { d.member with optionality := .optional } }
  | mandatedBy scope => { d with member := { d.member with optionality := .mandatedBy scope } }
  | serialName key => { d with member := { d.member with serialName := key } }
  | since version => { d with since := some version }
  | stop version => { d with stop := some version }

def InterpretationModifier.apply (d : Dated Interpretation) :
    InterpretationModifier → Dated Interpretation
  | deprecated => { d with member := { d.member with isDeprecated := true } }
  | nestProperty key => { d with member := { d.member with nestProperty := some key } }
  | since version => { d with since := some version }
  | stop version => { d with stop := some version }

/-- The window a member is dated for. -/
def Dated.window {α : Type} (d : Dated α) : Except TimelineError Window :=
  Window.ofBounds (d.since.getD .classic) d.stop

/-! ### Runs of live members -/

/-- A window and the places of the members that are live in it. -/
structure Run where
  window : Window
  live : List Nat
  deriving DecidableEq, Repr

/-- The places of the windows that contain a version. -/
def liveAt (windows : List Window) (v : Version) : List Nat :=
  (windows.zipIdx.filter fun (w, _) => w.contains v).map (·.2)

/-- Cut a stretch of versions wherever the live members change. `pending` is the
run that is still going on, with its start. -/
def cutRuns (live : Version → List Nat) : Option (Version × List Nat) → List Version → List Run
  | none, [] => []
  | some (since, members), [] => [⟨⟨since, none⟩, members⟩]
  | pending, v :: later =>
    if pending.map (·.2) = some (live v) then cutRuns live pending later
    else
      let finished := match pending with
        | none => []
        | some (since, members) => [(⟨⟨since, some v⟩, members⟩ : Run)]
      finished ++ cutRuns live (if (live v).isEmpty then none else some (v, live v)) later

/-- The runs of versions with the same live members, oldest first. Versions
without live members belong to no run; without any members there is one run that
holds every version. -/
def liveRuns (windows : List Window) : List Run :=
  if windows.isEmpty then [⟨.unbounded, []⟩]
  else cutRuns (liveAt windows) none Version.all

/-- Members by key; the key of the first member whose key is taken, if there is
one. -/
def snapshot {α : Type} (key : α → String) (members : List α) :
    Except String (SortedMap String α) :=
  members.foldlM
    (fun taken m =>
      if taken.contains (key m) then .error (key m) else .ok (taken.insert (key m) m))
    SortedMap.empty

/-! ### Scopes -/

/-- Where a conditional finds its discriminator and its interpretations. -/
structure Selector where
  key : String
  inSideProperty : Bool
  nestedInterpretations : Bool
  deriving DecidableEq, Repr

/-- The declarations around a new one, outermost first. -/
structure Scope where
  nest : List Name
  deriving DecidableEq, Repr

namespace Scope

def top : Scope := ⟨[]⟩

/-- The scope inside a declaration of this scope. -/
def inside (s : Scope) (parent : String) : Scope := ⟨s.nest ++ [Name.derive parent]⟩

def qualify (s : Scope) (spelling : String) : QualifiedName :=
  .declaration s.nest (Name.derive spelling)

def register (name : QualifiedName) (history : History) :
    EStateM DefinitionError Registry TypeUse := do
  Registry.insert name history
  return .declaration name

/-- Declare an alias of a primitive. Aliases are never nested. -/
def declareAlias (spelling : String) (primitive : Primitive) (description : String) :
    EStateM DefinitionError Registry TypeUse := do
  let name := QualifiedName.alias (Name.derive spelling)
  Registry.insert name (.constant (.alias ⟨name, primitive, description⟩))
  return .alias name

def declareEnum (s : Scope) (spelling : String) (underlying : Primitive)
    (values : List EnumValue) (description : String) :
    EStateM DefinitionError Registry TypeUse :=
  let name := s.qualify spelling
  register name (.constant (.enumeration ⟨name, underlying, values, description⟩))

def declareTuple (s : Scope) (spelling : String) (elements : List TupleElement)
    (description : String) : EStateM DefinitionError Registry TypeUse :=
  let name := s.qualify spelling
  register name (.constant (.tuple ⟨name, elements, description⟩))

/-- The windows of dated members, or the first fault among them. -/
def windowsOf {α : Type} (members : List (Dated α)) : Except DefinitionError (List Window) :=
  (members.mapM Dated.window).mapError .timeline

/-- The members at the given places, without their dates, by key. -/
def membersOf {α : Type} (name : QualifiedName) (window : Window) (key : α → String)
    (members : List (Dated α)) (places : List Nat) :
    Except DefinitionError (SortedMap String (Dated α)) :=
  let live := places.filterMap fun i => members[i]?.map Dated.undated
  (snapshot (fun d => key d.member) live).mapError fun member =>
    .duplicateMember name member window.since

/-- The history of a type with one declaration per run. -/
def historyOf (runs : List Run) (declare : Run → Except DefinitionError Declaration) :
    Except DefinitionError History := do
  let draft ← runs.foldlM
    (fun draft run => do
      let declaration ← declare run
      let added := (Timeline.Draft.add declaration run.window.since run.window.stop).run draft
      added.kept.mapError .timeline)
    Timeline.Draft.empty
  let timeline ← draft.build.mapError .timeline
  return .ofTimeline timeline

def declareRecord (s : Scope) (spelling : String) (properties : List (Dated Property))
    (description : String) : EStateM DefinitionError Registry TypeUse := do
  let name := s.qualify spelling
  let windows ← ofExcept (windowsOf properties)
  let history ← ofExcept <| historyOf (liveRuns windows) fun run => do
    let live ← membersOf name run.window Property.serialName properties run.live
    return .record ⟨name, live, description⟩
  register name history

def declareConditional (s : Scope) (spelling : String) (selector : Selector)
    (shared : List (Dated Property)) (interpretations : List (Dated Interpretation))
    (description : String) : EStateM DefinitionError Registry TypeUse := do
  let name := s.qualify spelling
  let sharedWindows ← ofExcept (windowsOf shared)
  let armWindows ← ofExcept (windowsOf interpretations)
  let count := shared.length
  let history ← ofExcept <| historyOf (liveRuns (sharedWindows ++ armWindows)) fun run => do
    let (sharedPlaces, armPlaces) := run.live.partition (· < count)
    let liveShared ← membersOf name run.window Property.serialName shared sharedPlaces
    let liveArms ← membersOf name run.window Interpretation.key interpretations
      (armPlaces.map (· - count))
    return .conditional
      { name := name
        selector := selector.key
        selectorInSideProperty := selector.inSideProperty
        interpretationInNestedProperty := selector.nestedInterpretations
        sharedProperties := liveShared
        interpretations := liveArms
        description := description }
  register name history

end Scope

end ApiChronicle
