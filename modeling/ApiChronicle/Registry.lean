import ApiChronicle.DefinitionError
import ApiChronicle.Shape
import ApiChronicle.Timeline

/-! # ApiChronicle.Registry

The **declared types** of an API, with their history.

A type has either one declaration for all versions or a timeline of them. The
registry keeps the histories by qualified name, together with the *auxiliary*
names: types that belong to the API although no query leads to them.

Two names are told apart in documents by their text only, so an alias and a
top-level declaration of one name exclude each other. Declaring a type works on the
registry in place; a type that is refused leaves no trace in it.
-/

namespace ApiChronicle

/-- The declarations of one type over time. -/
inductive History
  /-- One declaration for all versions. -/
  | constant (declaration : Declaration)
  /-- One declaration per window. -/
  | evolving (timeline : Timeline Declaration)
  deriving DecidableEq

namespace History

/-- The history told by a timeline. -/
def ofTimeline (t : Timeline Declaration) : History :=
  if t.isConstant then constant t.first.value else evolving t

/-- The declaration at a version, if the type exists there. -/
def at? (h : History) (v : Version) : Option Declaration :=
  match h with
  | constant d => some d
  | evolving t => t.at? v

/-- The earliest declaration. -/
def first : History → Declaration
  | constant d => d
  | evolving t => t.first.value

/-- The kind of type, judged by the earliest declaration. -/
def kind (h : History) : ShapeKind := h.first.kind

/-- Whether the type never changes. -/
def isConstant : History → Bool
  | constant _ => true
  | evolving _ => false

end History

/-- The declared types of an API. -/
structure Registry where
  types : SortedMap QualifiedName History
  /-- Types that belong to the API even if no query leads to them. -/
  auxiliary : SortedSet QualifiedName
  deriving DecidableEq

namespace Registry

def empty : Registry := ⟨.empty, .empty⟩

def get? (r : Registry) (name : QualifiedName) : Option History := r.types.get? name

def contains (r : Registry) (name : QualifiedName) : Bool := r.types.contains name

def size (r : Registry) : Nat := r.types.size

/-- Whether a name cannot be declared any more, because it or its twin is. -/
def isTaken (r : Registry) (name : QualifiedName) : Bool :=
  r.contains name || name.twin?.any r.contains

def insert (name : QualifiedName) (history : History) : EStateM DefinitionError Registry Unit := do
  let r ← get
  if r.isTaken name then throw (.duplicateDeclaration name)
  else set { r with types := r.types.insert name history }

/-- Make a declared type auxiliary. -/
def markAuxiliary (name : QualifiedName) : EStateM DefinitionError Registry Unit := do
  let r ← get
  if r.contains name then set { r with auxiliary := r.auxiliary.insert name () }
  else throw (.missingDeclaration name)

end Registry

end ApiChronicle
