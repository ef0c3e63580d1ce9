import ApiChronicle.Proofs.SortedMap
import ApiChronicle.Resolution
import Mathlib.Data.Set.Insert

/-! # ApiChronicle.Proofs.Reachability

**What a type leads to**, said without walking anything.

`TypeUse.Names` and `Shape.HasType` say which names occur in a use and which uses
occur in a shape, member by member and at any depth; they do not go through the
lists of mentions that the resolver follows. From them `Registry.RefersTo` makes
the references between types at one version, and `Registry.Reachable` closes a
set of names under these references.

The lists of mentions turn out to hold exactly the names that occur
(`names_iff_mention`, `mem_mentions_iff`), which is what lets a walk over the
lists be compared with the closure.
-/

namespace ApiChronicle

/-! ### Occurrence -/

namespace TypeUse

/-- A name occurs in a use, at any depth. -/
inductive Names : TypeUse → QualifiedName → Prop
  | elements {t n nullable} (h : Names t n) : Names (.array t nullable) n
  | keys {k t n nullable} (h : Names k n) : Names (.map k t nullable) n
  | values {k t n nullable} (h : Names t n) : Names (.map k t nullable) n
  | alias {n} : Names (.alias n) n
  | declaration {n} : Names (.declaration n) n

/-- The mentions of a use carry the names that occur in it. -/
theorem names_iff_mention {t : TypeUse} {n : QualifiedName} :
    t.Names n ↔ ∃ m ∈ t.mentions, m.name = n := by
  constructor
  · intro h
    induction h with
    | elements _ ih => exact ih
    | keys _ ih =>
        obtain ⟨m, hm, rfl⟩ := ih
        exact ⟨m, List.mem_append_left _ hm, rfl⟩
    | values _ ih =>
        obtain ⟨m, hm, rfl⟩ := ih
        exact ⟨m, List.mem_append_right _ hm, rfl⟩
    | «alias» => exact ⟨_, List.mem_singleton_self _, rfl⟩
    | declaration => exact ⟨_, List.mem_singleton_self _, rfl⟩
  · intro h
    obtain ⟨m, hm, rfl⟩ := h
    induction t with
    | primitive _ => exact absurd hm List.not_mem_nil
    | array elements _ ih => exact .elements (ih hm)
    | map keys values _ ihKeys ihValues =>
        rcases List.mem_append.mp hm with hm | hm
        · exact .keys (ihKeys hm)
        · exact .values (ihValues hm)
    | «alias» name =>
        obtain rfl := List.mem_singleton.mp hm
        exact .alias
    | declaration name =>
        obtain rfl := List.mem_singleton.mp hm
        exact .declaration

end TypeUse

/-- A shape has a member of a type; `p` and `i` read the types of properties and
interpretations. -/
inductive Shape.HasType {π ι : Type} (p : π → TypeUse) (i : ι → TypeUse) :
    Shape π ι → TypeUse → Prop
  | property {s x} (h : x ∈ s.properties.values) : HasType p i (.record s) (p x)
  | element {s e} (h : e ∈ s.elements) : HasType p i (.tuple s) e.type
  | shared {s x} (h : x ∈ s.sharedProperties.values) : HasType p i (.conditional s) (p x)
  | interpretation {s x} (h : x ∈ s.interpretations.values) :
      HasType p i (.conditional s) (i x)

/-- A declaration has a member of a type, dated or not. -/
def Declaration.Uses (d : Declaration) (t : TypeUse) : Prop :=
  Shape.HasType (fun p => p.member.type) (fun i => i.member.type) d t

/-- A schema has a member of a type. -/
def Schema.Uses (s : Schema) (t : TypeUse) : Prop :=
  Shape.HasType Property.type Interpretation.type s t

/-- The mentions of a schema are those of the types of its members. -/
theorem Schema.mem_mentions_iff {s : Schema} {m : Mention} :
    m ∈ Shape.mentions s ↔ ∃ t, Schema.Uses s t ∧ m ∈ t.mentions := by
  constructor
  · intro h
    cases s with
    | «alias» _ => exact absurd h List.not_mem_nil
    | enumeration _ => exact absurd h List.not_mem_nil
    | record s =>
        obtain ⟨p, hp, hm⟩ := List.mem_flatMap.mp h
        exact ⟨p.type, .property hp, hm⟩
    | tuple s =>
        obtain ⟨e, he, hm⟩ := List.mem_flatMap.mp h
        exact ⟨e.type, .element he, hm⟩
    | conditional s =>
        rcases List.mem_append.mp h with h | h
        · obtain ⟨p, hp, hm⟩ := List.mem_flatMap.mp h
          exact ⟨p.type, .shared hp, hm⟩
        · obtain ⟨i, hi, hm⟩ := List.mem_flatMap.mp h
          exact ⟨i.type, .interpretation hi, hm⟩
  · intro h
    obtain ⟨t, ht, hm⟩ := h
    cases ht with
    | property hp => exact List.mem_flatMap.mpr ⟨_, hp, hm⟩
    | element he => exact List.mem_flatMap.mpr ⟨_, he, hm⟩
    | shared hp => exact List.mem_append_left _ (List.mem_flatMap.mpr ⟨_, hp, hm⟩)
    | interpretation hi => exact List.mem_append_right _ (List.mem_flatMap.mpr ⟨_, hi, hm⟩)

/-- Leaving the dates out changes no type. -/
theorem Declaration.uses_resolved {d : Declaration} {t : TypeUse} :
    Schema.Uses d.resolved t ↔ d.Uses t := by
  constructor
  · intro h
    cases d with
    | «alias» _ => cases h
    | enumeration _ => cases h
    | record s =>
        cases h with
        | property h =>
            obtain ⟨p, hp, rfl⟩ := SortedMap.mem_values_map.mp h
            exact .property hp
    | tuple s =>
        cases h with
        | element h => exact .element h
    | conditional s =>
        cases h with
        | shared h =>
            obtain ⟨p, hp, rfl⟩ := SortedMap.mem_values_map.mp h
            exact .shared hp
        | interpretation h =>
            obtain ⟨i, hi, rfl⟩ := SortedMap.mem_values_map.mp h
            exact .interpretation hi
  · intro h
    cases h with
    | property hp => exact .property (SortedMap.mem_values_map.mpr ⟨_, hp, rfl⟩)
    | element he => exact .element he
    | shared hp => exact .shared (SortedMap.mem_values_map.mpr ⟨_, hp, rfl⟩)
    | interpretation hi => exact .interpretation (SortedMap.mem_values_map.mpr ⟨_, hi, rfl⟩)

/-- What the resolver follows out of a declaration. -/
theorem Declaration.mem_mentions_resolved {d : Declaration} {m : Mention} :
    m ∈ Shape.mentions d.resolved ↔ ∃ t, d.Uses t ∧ m ∈ t.mentions := by
  simp only [Schema.mem_mentions_iff, Declaration.uses_resolved]

/-! ### References between types -/

namespace Registry

variable {r : Registry} {v : Version}

/-- A type is declared and has this declaration at the version. -/
def Declares (r : Registry) (v : Version) (n : QualifiedName) (d : Declaration) : Prop :=
  ∃ history, r.get? n = some history ∧ history.at? v = some d

/-- A look-up succeeds at the declarations. -/
theorem declarationAt_eq_ok_iff {n : QualifiedName} {d : Declaration} :
    r.declarationAt n v = .ok d ↔ r.Declares v n d := by
  unfold declarationAt Declares
  cases r.get? n with
  | none => simp
  | some history => cases h : history.at? v <;> simp [h]

/-- A type has one declaration at a version. -/
theorem Declares.unique {n : QualifiedName} {d d' : Declaration} (h : r.Declares v n d)
    (h' : r.Declares v n d') : d = d' :=
  Except.ok.inj ((declarationAt_eq_ok_iff.mpr h).symm.trans (declarationAt_eq_ok_iff.mpr h'))

/-- A declared type is in the registry. -/
theorem Declares.mem_keys {n : QualifiedName} {d : Declaration} (h : r.Declares v n d) :
    n ∈ r.types.keys := by
  obtain ⟨history, hget, -⟩ := h
  exact SortedMap.mem_keys_iff.mpr (SortedMap.contains_iff_exists.mpr ⟨history, hget⟩)

/-- The declaration of a type at a version mentions a name. -/
def RefersTo (r : Registry) (v : Version) (a b : QualifiedName) : Prop :=
  ∃ d t, r.Declares v a d ∧ d.Uses t ∧ t.Names b

/-- A reference stands behind every mention of the resolved declaration. -/
theorem refersTo_iff_mention {a b : QualifiedName} {d : Declaration} (h : r.Declares v a d) :
    r.RefersTo v a b ↔ ∃ m ∈ Shape.mentions d.resolved, m.name = b := by
  constructor
  · intro href
    obtain ⟨d', t, hd', ht, hb⟩ := href
    obtain rfl := h.unique hd'
    obtain ⟨m, hm, rfl⟩ := TypeUse.names_iff_mention.mp hb
    exact ⟨m, Declaration.mem_mentions_resolved.mpr ⟨t, ht, hm⟩, rfl⟩
  · intro hb
    obtain ⟨m, hm, rfl⟩ := hb
    obtain ⟨t, ht, hm⟩ := Declaration.mem_mentions_resolved.mp hm
    exact ⟨d, t, h, ht, TypeUse.names_iff_mention.mpr ⟨m, hm, rfl⟩⟩

/-! ### Reachable names -/

/-- A name is among `start`, or a reachable type refers to it. -/
inductive Reachable (r : Registry) (v : Version) (start : Set QualifiedName) :
    QualifiedName → Prop
  | start {n} (h : n ∈ start) : Reachable r v start n
  | step {a b} (h : Reachable r v start a) (href : r.RefersTo v a b) : Reachable r v start b

variable {start start' : Set QualifiedName} {n : QualifiedName}

/-- A set that holds the start and what its members refer to holds every reachable
name. -/
theorem Reachable.mem_of_closed {closed : Set QualifiedName} (hstart : start ⊆ closed)
    (hclosed : ∀ a ∈ closed, ∀ b, r.RefersTo v a b → b ∈ closed) (h : r.Reachable v start n) :
    n ∈ closed := by
  induction h with
  | start h => exact hstart h
  | step _ href ih => exact hclosed _ ih _ href

/-- What is reachable from reachable names is reachable. -/
theorem Reachable.trans (hstart : ∀ a ∈ start, r.Reachable v start' a)
    (h : r.Reachable v start n) : r.Reachable v start' n :=
  h.mem_of_closed (show start ⊆ {a | r.Reachable v start' a} from hstart)
    fun _ ha _ href => Reachable.step ha href

theorem Reachable.mono (hsub : start ⊆ start') (h : r.Reachable v start n) :
    r.Reachable v start' n :=
  h.trans fun _ ha => .start (hsub ha)

/-- Whatever a start leads to, one of its members leads to. -/
theorem Reachable.exists_singleton (h : r.Reachable v start n) :
    ∃ a ∈ start, r.Reachable v {a} n := by
  induction h with
  | start h => exact ⟨_, h, .start rfl⟩
  | step _ href ih =>
      obtain ⟨a, ha, hreach⟩ := ih
      exact ⟨a, ha, hreach.step href⟩

/-- What two starts lead to together, one of them leads to. -/
theorem reachable_union_iff :
    r.Reachable v (start ∪ start') n ↔ r.Reachable v start n ∨ r.Reachable v start' n := by
  constructor
  · intro h
    obtain ⟨a, ha, h⟩ := h.exists_singleton
    rcases ha with ha | ha
    · exact Or.inl (h.mono (Set.singleton_subset_iff.mpr ha))
    · exact Or.inr (h.mono (Set.singleton_subset_iff.mpr ha))
  · intro h
    rcases h with h | h
    · exact h.mono Set.subset_union_left
    · exact h.mono Set.subset_union_right

/-- The names that a list of mentions carries. -/
def mentioned (ms : List Mention) : Set QualifiedName := {n | ∃ m ∈ ms, m.name = n}

/-- What the mentions of a declaration lead to, its type leads to. -/
theorem Reachable.of_declares {a : QualifiedName} {d : Declaration}
    (h : r.Reachable v (mentioned (Shape.mentions d.resolved)) n) (ha : r.Reachable v start a)
    (hd : r.Declares v a d) : r.Reachable v start n :=
  h.trans fun _ hb => ha.step ((refersTo_iff_mention hd).mpr hb)

end Registry

end ApiChronicle
