import ApiChronicle.Catalogue

/-! # ApiChronicle.Catalogue.References

What the **type references** of a catalogue mean.

A reference that is the keyword of a primitive means that primitive, and one that
is the key of an alias means that alias. Any other is a path, and it is looked for
from the inside out: first below the declaration that contains it, then below the
declaration around that one, and at last at the top level.
-/

namespace ApiChronicle.Catalogue

/-- What a catalogue declares. -/
structure References where
  /-- The keys of the aliases. -/
  aliases : List String
  /-- The names of the types. -/
  declarations : List QualifiedName

namespace References

mutual

/-- The names of a type and of those inside it, where `path` leads to the type. -/
def ofType (path : List String) : TypeEntry → List QualifiedName
  | .mk _ _ nested => .ofPath path :: ofTypes path nested

/-- The names of the types listed below a path. -/
def ofTypes (path : List String) : List (String × TypeEntry) → List QualifiedName
  | [] => []
  | (key, type) :: rest => ofType (path ++ [key]) type ++ ofTypes path rest

end

def ofCatalogue (c : Catalogue) : References := ⟨c.aliases.map (·.1), ofTypes [] c.types⟩

/-- The parts of a text between its dots. -/
def splitAtDots : List Char → List (List Char)
  | [] => [[]]
  | c :: rest =>
    if c = '.' then [] :: splitAtDots rest
    else match splitAtDots rest with
      | [] => [[c]]
      | part :: parts => (c :: part) :: parts

def segments (reference : String) : List String :=
  (splitAtDots reference.toList).map String.ofList

/-- The names a path may mean inside the declarations `scope`, the innermost
first. -/
def candidates (scope path : List String) : List QualifiedName :=
  (List.range (scope.length + 1)).reverse.map fun depth => .ofPath (scope.take depth ++ path)

def scopeText (scope : List String) : String :=
  if scope.isEmpty then "catalogue" else ".".intercalate scope

/-- What a text means inside the declarations `scope`. -/
def named (refs : References) (scope : List String) (reference : String) :
    Except DefinitionError TypeUse :=
  match Primitive.named? reference with
  | some p => .ok (.primitive p)
  | none =>
    if reference ∈ refs.aliases then .ok (.alias (.alias (Name.derive reference)))
    else
      match (candidates scope (segments reference)).find? (· ∈ refs.declarations) with
      | some name => .ok (.declaration name)
      | none => .error (.unknownType reference (scopeText scope))

/-- What a reference means inside the declarations `scope`. -/
def resolve (refs : References) (scope : List String) : TypeRef → Except DefinitionError TypeUse
  | .named reference => refs.named scope reference
  | .array elements nullable => do
    return .array (← refs.resolve scope elements) nullable
  | .map keys values nullable => do
    return .map (← refs.resolve scope keys) (← refs.resolve scope values) nullable

end References

end ApiChronicle.Catalogue
