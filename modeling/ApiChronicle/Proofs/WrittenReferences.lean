import ApiChronicle.Catalogue.Definition
import ApiChronicle.Proofs.Fallible
import ApiChronicle.Proofs.SeparableNames

/-! # ApiChronicle.Proofs.WrittenReferences

**What a catalogue declares and what it refers to**, listed without the work of loading.

The types of a catalogue stand inside one another. `placements` lists them with the keys
around each, and it is the one list behind both walks through a catalogue: the names that
are collected before anything is declared are the names of the placements
(`mem_ofTypes_iff`), and declaring the types declares the placements one by one
(`declareTypes_eq_foldlM`). A reference that is resolved against the collected names can
therefore only mean a type that is going to be declared.

What a reference says is also told without the search for it: `TypeRef.Means` reads the text as it
is written against the types that are declared, and a path leads as far inside as it can.
-/

namespace ApiChronicle

theorem Primitive.keyword_of_named? {text : String} {p : Primitive} (h : named? text = some p) :
    p.keyword = text :=
  of_decide_eq_true (List.find?_some (p := fun p : Primitive => decide (p.keyword = text)) h)

theorem Primitive.ne_keyword_of_named? {text : String} (h : named? text = none) (p : Primitive) :
    text ≠ p.keyword := by
  rintro rfl
  have hmem : p ∈ all := by cases p <;> decide
  simpa using List.find?_eq_none.mp h p hmem

namespace Catalogue

/-! ### Types and the declarations around them -/

/-- A type and the keys of the declarations around it, outermost first. -/
structure Placement where
  parent : List String
  key : String
  description : String
  body : TypeBody
  deriving DecidableEq, Repr

namespace Placement

/-- The path that leads to the type. -/
def path (p : Placement) : List String := p.parent ++ [p.key]

/-- The name of the type. -/
def name (p : Placement) : QualifiedName := .ofPath p.path

/-- Declare the type. -/
def declare (refs : References) (r : Registry) (p : Placement) : Except DefinitionError Registry :=
  p.body.declare refs p.parent p.key p.description r

@[simp] theorem isAlias_name (p : Placement) : p.name.isAlias = false := rfl

end Placement

mutual

/-- A type and those inside it, the type itself last. -/
def placementsOf (parent : List String) (key : String) : TypeEntry → List Placement
  | .mk description body nested =>
    placements (parent ++ [key]) nested ++ [⟨parent, key, description, body⟩]

/-- The types listed below a path and those inside them, in the order of declaration. -/
def placements (parent : List String) : List (String × TypeEntry) → List Placement
  | [] => []
  | (key, type) :: rest => placementsOf parent key type ++ placements parent rest

end

mutual

theorem mem_ofType_iff (parent : List String) (key : String) {n : QualifiedName} :
    ∀ type : TypeEntry, n ∈ References.ofType (parent ++ [key]) type ↔
      ∃ p ∈ placementsOf parent key type, p.name = n
  | .mk description body nested => by
      rw [References.ofType, placementsOf, List.mem_cons, mem_ofTypes_iff]
      simp only [List.mem_append, List.mem_singleton, or_and_right, exists_or, exists_eq_left]
      rw [or_comm, eq_comm]
      rfl

/-- The collected names are those of the placements. -/
theorem mem_ofTypes_iff (parent : List String) {n : QualifiedName} :
    ∀ types : List (String × TypeEntry), n ∈ References.ofTypes parent types ↔
      ∃ p ∈ placements parent types, p.name = n
  | [] => by simp [References.ofTypes, placements]
  | (key, type) :: rest => by
      rw [References.ofTypes, placements, List.mem_append, mem_ofType_iff, mem_ofTypes_iff]
      simp only [List.mem_append, or_and_right, exists_or]

end

mutual

theorem declareType_eq_foldlM (refs : References) (parent : List String) (key : String) :
    ∀ (type : TypeEntry) (r : Registry), declareType refs parent key type r =
      (placementsOf parent key type).foldlM (Placement.declare refs) r
  | .mk description body nested, r => by
      rw [declareType, placementsOf, List.foldlM_append, declareTypes_eq_foldlM]
      simp only [List.foldlM_cons, List.foldlM_nil, bind_pure]
      rfl

/-- Declaring types declares their placements. -/
theorem declareTypes_eq_foldlM (refs : References) (parent : List String) :
    ∀ (types : List (String × TypeEntry)) (r : Registry), declareTypes refs parent types r =
      (placements parent types).foldlM (Placement.declare refs) r
  | [], r => rfl
  | (key, type) :: rest, r => by
      rw [declareTypes, placements, List.foldlM_append, declareType_eq_foldlM]
      simp only [declareTypes_eq_foldlM]

end

/-! ### References -/

/-- The references in the body of a type. -/
def TypeBody.references : TypeBody → List TypeRef
  | .record properties => properties.flatMap fun (_, entries) => entries.map (·.type)
  | .conditional _ shared interpretations =>
    (shared.flatMap fun (_, entries) => entries.map (·.type)) ++
      interpretations.flatMap fun (_, entries) => entries.map (·.type)
  | .enumeration _ _ => []
  | .tuple elements => elements.map (·.type)

/-- The references of an endpoint: those of its parameters and of its responses. -/
def EndpointEntry.references (e : EndpointEntry) : List TypeRef :=
  e.pathParameters.map (·.2.type) ++ e.queryParameters.map (·.2.type) ++
    (e.schema.toList ++ e.schemas.map (·.2))

/-- Every reference of a catalogue, with the declarations it stands inside. -/
def references (c : Catalogue) : List (List String × TypeRef) :=
  ((placements [] c.types).flatMap fun p => p.body.references.map (p.path, ·)) ++
    ((c.endpoints.flatMap EndpointEntry.references ++ c.auxiliary.map TypeRef.named).map ([], ·))

namespace References

variable {refs : References} {scope : List String} {t : TypeUse}

/-- What a reference means is found in this order: a primitive, an alias, a declaration. -/
theorem named_eq_ok_iff {reference : String} :
    refs.named scope reference = .ok t ↔
      (∃ p, Primitive.named? reference = some p ∧ t = .primitive p) ∨
      Primitive.named? reference = none ∧
        (reference ∈ refs.aliases ∧ t = .alias (.alias (Name.derive reference)) ∨
          reference ∉ refs.aliases ∧
            ∃ n, (candidates scope (segments reference)).find? (· ∈ refs.declarations) = some n ∧
              t = .declaration n) := by
  unfold named
  cases hprim : Primitive.named? reference with
  | some p => simp [eq_comm]
  | none =>
      by_cases halias : reference ∈ refs.aliases
      · simp [halias, eq_comm]
      cases (candidates scope (segments reference)).find? (· ∈ refs.declarations) with
      | some n => simp [halias, eq_comm]
      | none => simp [halias]

/-- A reference fails only if nothing has its name. -/
theorem named_eq_error_iff {reference : String} {fault : DefinitionError} :
    refs.named scope reference = .error fault ↔
      Primitive.named? reference = none ∧ reference ∉ refs.aliases ∧
        (candidates scope (segments reference)).find? (· ∈ refs.declarations) = none ∧
        fault = .unknownType reference (scopeText scope) := by
  unfold named
  cases hprim : Primitive.named? reference with
  | some p => simp
  | none =>
      by_cases halias : reference ∈ refs.aliases
      · simp [halias]
      cases (candidates scope (segments reference)).find? (· ∈ refs.declarations) with
      | some n => simp [halias]
      | none => simp [halias, eq_comm]

end References

/-! ### Meanings -/

/-- The steps of a written path. -/
def steps (text : String) : List String := (text.toList.splitOn '.').map String.ofList

/-- A declaration with the names that a path of spellings has. -/
def StandsAt (path : List String) (n : QualifiedName) : Prop :=
  n.isAlias = false ∧ n.path = path.map Name.derive

/-- What a reference says inside the declarations `scope`, where `r` tells what is declared. Text
is a keyword, or else the key of an alias, or else a path. The path starts at the top level or in
one of the surrounding declarations, the innermost of those in which it leads to a type. -/
inductive TypeRef.Means (c : Catalogue) (r : Registry) (scope : List String) :
    TypeRef → TypeUse → Prop
  | primitive {p : Primitive} : Means c r scope (.named p.keyword) (.primitive p)
  | alias {key shape} (nokeyword : ∀ p : Primitive, key ≠ p.keyword)
      (listed : key ∈ c.aliases.map (·.1))
      (declared : r.get? (.alias (Name.derive key)) = some (.constant (.alias shape))) :
      Means c r scope (.named key) (.alias (.alias (Name.derive key)))
  | declaration {text around n} (nokeyword : ∀ p : Primitive, text ≠ p.keyword)
      (unlisted : text ∉ c.aliases.map (·.1)) (surrounding : around <+: scope)
      (place : StandsAt (around ++ steps text) n) (declared : r.contains n = true)
      (innermost : ∀ inner m, inner <+: scope → around.length < inner.length →
        StandsAt (inner ++ steps text) m → r.contains m = false) :
      Means c r scope (.named text) (.declaration n)
  | array {ref t nullable} (elements : Means c r scope ref t) :
      Means c r scope (.array ref nullable) (.array t nullable)
  | map {keyRef ref k t nullable} (keys : Means c r scope keyRef k)
      (values : Means c r scope ref t) :
      Means c r scope (.map keyRef ref nullable) (.map k t nullable)

theorem segments_eq_steps (text : String) : References.segments text = steps text := by
  rw [References.segments, References.splitAtDots_eq_splitOn, steps]

theorem steps_ne_nil (text : String) : steps text ≠ [] :=
  fun h => List.splitOn_ne_nil '.' text.toList (List.map_eq_nil_iff.mp h)

/-- At the end of a path there is one declaration. -/
theorem standsAt_iff {path : List String} (hpath : path ≠ []) {n : QualifiedName} :
    StandsAt path n ↔ n = .ofPath path := by
  obtain ⟨around, key, rfl⟩ := (List.eq_nil_or_concat' path).resolve_left hpath
  have hname : QualifiedName.ofPath (around ++ [key]) =
      .declaration (around.map Name.derive) (Name.derive key) := by simp [QualifiedName.ofPath]
  rw [hname, StandsAt, List.map_append]
  constructor
  · rintro ⟨hkind, hnames⟩
    cases n with
    | «alias» n => cases hkind
    | declaration nest n =>
        obtain ⟨rfl, hlast⟩ := List.append_inj' hnames rfl
        obtain rfl : n = Name.derive key := List.singleton_inj.mp hlast
        rfl
  · rintro rfl
    exact ⟨rfl, rfl⟩

/-- Numbers that are tried from above are found at the greatest one. -/
theorem greatest_of_find? {k i : Nat} {p : Nat → Bool}
    (h : (List.range k).reverse.find? p = some i) :
    i < k ∧ p i = true ∧ ∀ j < k, i < j → p j = false := by
  induction k with
  | zero => cases h
  | succ k ih =>
      rw [List.range_succ, List.reverse_concat, List.find?_cons] at h
      split at h
      · next hk =>
        obtain rfl := Option.some.inj h
        exact ⟨Nat.lt_succ_self k, hk, fun j hj hkj => by omega⟩
      next hk =>
      obtain ⟨hi, hp, habove⟩ := ih h
      refine ⟨Nat.lt_succ_of_lt hi, hp, fun j hj hij => ?_⟩
      by_cases hjk : j = k
      · rw [hjk]
        exact hk
      · exact habove j (by omega) hij

/-- A name that is looked for among the candidates is found as far inside as there is one. -/
theorem exists_of_find?_candidates {scope path : List String} (hpath : path ≠ [])
    {known : QualifiedName → Bool} {n : QualifiedName}
    (h : (References.candidates scope path).find? known = some n) :
    ∃ around, around <+: scope ∧ StandsAt (around ++ path) n ∧ known n = true ∧
      ∀ inner m, inner <+: scope → around.length < inner.length →
        StandsAt (inner ++ path) m → known m = false := by
  rw [References.candidates, List.find?_map] at h
  obtain ⟨depth, hdepth, rfl⟩ := Option.map_eq_some_iff.mp h
  obtain ⟨hle, hknown, hdeeper⟩ := greatest_of_find? hdepth
  refine ⟨scope.take depth, List.take_prefix _ _, (standsAt_iff (by simp [hpath])).mpr rfl,
    hknown, fun inner m hinner hlength hm => ?_⟩
  rw [List.length_take_of_le (Nat.le_of_lt_succ hle)] at hlength
  obtain rfl := (standsAt_iff (by simp [hpath])).mp hm
  rw [List.prefix_iff_eq_take.mp hinner]
  exact hdeeper _ (Nat.lt_succ_of_le hinner.length_le) hlength

end Catalogue

end ApiChronicle
