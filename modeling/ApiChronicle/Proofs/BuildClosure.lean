import ApiChronicle.Proofs.BuildRoots
import Mathlib.Order.Bounds.Basic

/-! # ApiChronicle.Proofs.BuildClosure

**The types of a built API** are what its selected part leads to, and nothing else.

The types are collected by the reports of one walk over all queries and auxiliary
types. A successful walk from nothing reports exactly what it can reach
(`Resolves.reported_iff_reachable`), so the keys of the types are the least set that
holds the roots and is closed under references. Each report shows the declaration of
its name, so under each key stands that declaration without its dates. The aliases
and the other declarations are collected apart; no name is in both collections,
because a type has one shape at a version.
-/

namespace ApiChronicle

/-! ### Declarations without their dates -/

/-- A schema says at one version what a declaration says: it has the same members
under the same keys, and of a member only the dates are left out. -/
def Declaration.Translation : Declaration → Schema → Prop
  | .alias s, .alias s' => s' = s
  | .enumeration s, .enumeration s' => s' = s
  | .record s, .record s' =>
    s'.name = s.name ∧ s'.description = s.description ∧
      ∀ key, s'.properties.get? key = (s.properties.get? key).map Dated.member
  | .tuple s, .tuple s' => s' = s
  | .conditional s, .conditional s' =>
    s'.name = s.name ∧ s'.selector = s.selector ∧
      s'.selectorInSideProperty = s.selectorInSideProperty ∧
      s'.interpretationInNestedProperty = s.interpretationInNestedProperty ∧
      s'.description = s.description ∧
      (∀ key, s'.sharedProperties.get? key = (s.sharedProperties.get? key).map Dated.member) ∧
      ∀ key, s'.interpretations.get? key = (s.interpretations.get? key).map Dated.member
  | _, _ => False

theorem Declaration.translation_resolved (d : Declaration) : d.Translation d.resolved := by
  cases d with
  | «alias» s => exact rfl
  | enumeration s => exact rfl
  | record s => exact ⟨rfl, rfl, SortedMap.get?_map _ _⟩
  | tuple s => exact rfl
  | conditional s =>
      exact ⟨rfl, rfl, rfl, rfl, rfl, SortedMap.get?_map _ _, SortedMap.get?_map _ _⟩

/-! ### Collected types -/

/-- What a report shows. -/
def Report.schema : Report → Schema
  | .alias _ shape => .alias shape
  | .declaration _ schema => schema

/-- A faithful report shows the declaration of its name. -/
theorem Report.Faithful.resolved {r : Registry} {v : Version} {rep : Report}
    (h : rep.Faithful r v) : ∃ d, r.Declares v rep.name d ∧ rep.schema = d.resolved := by
  cases rep with
  | «alias» n shape => exact ⟨_, h, rfl⟩
  | declaration n schema =>
      obtain ⟨d, hd, -, rfl⟩ := h
      exact ⟨d, hd, rfl⟩

namespace Pass

variable {p : Pass} {n : QualifiedName}

theorem contains_aliases :
    p.aliases.contains n = true ↔ ∃ shape, Report.alias n shape ∈ p.reports := by
  unfold aliases
  rw [SortedMap.contains_ofList]
  refine exists_congr fun shape => ?_
  rw [List.mem_filterMap]
  constructor
  · intro h
    obtain ⟨rep, hrep, hshape⟩ := h
    cases rep with
    | «alias» n' shape' =>
        obtain ⟨rfl, rfl⟩ := Prod.mk.inj (Option.some.inj hshape)
        exact hrep
    | declaration n' schema => cases hshape
  · exact fun h => ⟨_, h, rfl⟩

theorem contains_declarations :
    p.declarations.contains n = true ↔ ∃ schema, Report.declaration n schema ∈ p.reports := by
  unfold declarations
  rw [SortedMap.contains_ofList]
  refine exists_congr fun schema => ?_
  rw [List.mem_filterMap]
  constructor
  · intro h
    obtain ⟨rep, hrep, hschema⟩ := h
    cases rep with
    | «alias» n' shape => cases hschema
    | declaration n' schema' =>
        obtain ⟨rfl, rfl⟩ := Prod.mk.inj (Option.some.inj hschema)
        exact hrep
  · exact fun h => ⟨_, h, rfl⟩

/-- The collected names are the reported ones. -/
theorem contains_types : p.types.contains n = true ↔ ∃ rep ∈ p.reports, rep.name = n := by
  unfold types
  rw [SortedMap.contains_foldl_insert]
  have haliases : (∃ e ∈ p.aliases.entries, e.1 = n) ↔ p.aliases.contains n = true := by
    rw [← SortedMap.mem_keys_iff]
    exact List.mem_map.symm
  rw [haliases, contains_aliases, contains_declarations]
  constructor
  · intro h
    rcases h with ⟨shape, h⟩ | ⟨schema, h⟩
    · exact ⟨_, h, rfl⟩
    · exact ⟨_, h, rfl⟩
  · intro h
    obtain ⟨rep, hrep, rfl⟩ := h
    cases rep with
    | «alias» n shape => exact Or.inl ⟨shape, hrep⟩
    | declaration n schema => exact Or.inr ⟨schema, hrep⟩

/-- What is collected under a name was reported under it. -/
theorem exists_report_of_types {schema : Schema} (h : p.types.get? n = some schema) :
    ∃ rep ∈ p.reports, rep.name = n ∧ rep.schema = schema := by
  rcases SortedMap.get?_foldl_insert (f := Prod.fst) h with ⟨⟨n', shape⟩, he, rfl, rfl⟩ | hdecl
  · have hmem := SortedMap.get?_ofList (SortedMap.get?_eq_some_iff.mpr he)
    obtain ⟨rep, hrep, hshape⟩ := List.mem_filterMap.mp hmem
    cases rep with
    | «alias» n shape' =>
        obtain ⟨rfl, rfl⟩ := Prod.mk.inj (Option.some.inj hshape)
        exact ⟨_, hrep, rfl, rfl⟩
    | declaration n schema => cases hshape
  · obtain ⟨rep, hrep, hschema⟩ := List.mem_filterMap.mp (SortedMap.get?_ofList hdecl)
    cases rep with
    | «alias» n' shape => cases hschema
    | declaration n' schema' =>
        obtain ⟨rfl, rfl⟩ := Prod.mk.inj (Option.some.inj hschema)
        exact ⟨_, hrep, rfl, rfl⟩

end Pass

namespace ApiDefinition

variable {d : ApiDefinition} {s : Selection} {api : Api} {n : QualifiedName}

/-! ### The closure -/

/-- A set of names that holds the roots of a selection and whatever its members refer
to at the version. -/
structure Closed (d : ApiDefinition) (s : Selection) (names : Set QualifiedName) : Prop where
  root : ∀ n, d.IsRoot s n → n ∈ names
  step : ∀ a ∈ names, ∀ b, d.registry.RefersTo s.version a b → b ∈ names

theorem reachable_isLeast (d : ApiDefinition) (s : Selection) :
    IsLeast {names | d.Closed s names} {n | d.Reachable s n} := by
  refine ⟨⟨fun n hn => .start hn, fun a ha b href => Registry.Reachable.step ha href⟩, ?_⟩
  intro names hclosed n hn
  obtain ⟨hroot, hstep⟩ : d.Closed s names := hclosed
  exact Registry.Reachable.mem_of_closed hroot hstep hn

/-- Every report of a build is faithful. -/
theorem faithful_of_mem_reports {queries : List Query} {rep : Report}
    (h : rep ∈ (d.outcome s queries).pass.reports) : rep.Faithful d.registry s.version := by
  rcases (d.outcome_resolves s queries).faithful h with h | ⟨hfaithful, -⟩
  · exact absurd h List.not_mem_nil
  · exact hfaithful

/-- The types of a built API have the reachable names. -/
theorem contains_types_of_build (h : d.build s = .ok api) :
    api.types.contains n = true ↔ d.Reachable s n := by
  obtain ⟨queries, hqueries, hok, rfl⟩ := build_eq_ok h
  rw [Pass.contains_types, (d.outcome_resolves s queries).reported_iff_reachable hok,
    mentioned_rootMentions hqueries]
  rfl

/-- The types of a built API are the reachable ones, each as the declaration that it has
at the version. -/
theorem get?_types_of_build (h : d.build s = .ok api) {schema : Schema} :
    api.types.get? n = some schema ↔
      d.Reachable s n ∧ ∃ decl, d.registry.Declares s.version n decl ∧ schema = decl.resolved := by
  have hshown : ∀ {schema'}, api.types.get? n = some schema' →
      ∃ decl, d.registry.Declares s.version n decl ∧ schema' = decl.resolved := by
    intro schema' hschema
    obtain ⟨queries, -, -, rfl⟩ := build_eq_ok h
    obtain ⟨rep, hrep, rfl, rfl⟩ := Pass.exists_report_of_types hschema
    exact (faithful_of_mem_reports hrep).resolved
  constructor
  · intro hschema
    exact ⟨(contains_types_of_build h).mp (SortedMap.contains_iff_exists.mpr ⟨_, hschema⟩),
      hshown hschema⟩
  · intro hn
    obtain ⟨hreach, decl, hdecl, rfl⟩ := hn
    obtain ⟨schema', hschema'⟩ :=
      SortedMap.contains_iff_exists.mp ((contains_types_of_build h).mpr hreach)
    -- what is collected under the name shows its declaration, and it has only one
    obtain ⟨decl', hdecl', rfl⟩ := hshown hschema'
    rwa [hdecl.unique hdecl']

/-- Under each name stands a translation of the declaration it has at the version. -/
theorem translation_of_build (h : d.build s = .ok api) {schema : Schema}
    (hschema : api.types.get? n = some schema) :
    ∃ decl, d.registry.Declares s.version n decl ∧ decl.Translation schema := by
  obtain ⟨-, decl, hdecl, rfl⟩ := (get?_types_of_build h).mp hschema
  exact ⟨decl, hdecl, decl.translation_resolved⟩

/-- A walk collects no name both as an alias and as a declaration. -/
theorem collected_apart (d : ApiDefinition) (s : Selection) (queries : List Query)
    (n : QualifiedName) :
    ¬((d.outcome s queries).pass.aliases.contains n = true ∧
      (d.outcome s queries).pass.declarations.contains n = true) := by
  intro h
  obtain ⟨halias, hdecl⟩ := h
  obtain ⟨shape, halias⟩ := Pass.contains_aliases.mp halias
  obtain ⟨schema, hdecl⟩ := Pass.contains_declarations.mp hdecl
  have hshape : d.registry.Declares s.version n (.alias shape) := faithful_of_mem_reports halias
  obtain ⟨decl, hdeclared, kind, -⟩ := faithful_of_mem_reports hdecl
  -- the name has one shape at the version, and it is an alias or it is not
  obtain rfl := hdeclared.unique hshape
  exact kind rfl

/-- What a query of a built API uses starts from a root. -/
theorem isRoot_of_query (h : d.build s = .ok api) {x : ResolvedQuery} (hx : x ∈ api.queries)
    {t : TypeUse} (ht : x.Uses t) (hn : t.Names n) : d.IsRoot s n := by
  obtain ⟨queries, hqueries, -, rfl⟩ := build_eq_ok h
  obtain ⟨q, hq, hat⟩ := List.mem_filterMap.mp hx
  exact .query ((mem_selectedQueries hqueries).mp hq) (Query.at?_eq_some_iff.mp hat).1
    ((Query.uses_at? hat).mp ht) hn

/-- What a type of a built API uses, its declaration refers to. -/
theorem refersTo_of_type (h : d.build s = .ok api) {schema : Schema}
    (hschema : api.types.get? n = some schema) {t : TypeUse} (ht : Schema.Uses schema t)
    {b : QualifiedName} (hb : t.Names b) : d.registry.RefersTo s.version n b := by
  obtain ⟨-, decl, hdecl, rfl⟩ := (get?_types_of_build h).mp hschema
  exact ⟨decl, t, hdecl, Declaration.uses_resolved.mp ht, hb⟩

/-- **The types of a built API are the reachable closure.** Their names are the least
set that holds the roots of the selection and is closed under references; each stands
for the declaration it has at the version, without its dates; no query and no type
mentions a name that is left out; and aliases and declarations are collected apart. -/
theorem build_types_closure (h : d.build s = .ok api) :
    IsLeast {names | d.Closed s names} {n | api.types.contains n = true} ∧
    (∀ n schema, api.types.get? n = some schema →
      ∃ decl, d.registry.Declares s.version n decl ∧ decl.Translation schema) ∧
    (∀ x ∈ api.queries, ∀ t, x.Uses t → ∀ n, t.Names n → api.types.contains n = true) ∧
    (∀ n schema, api.types.get? n = some schema →
      ∀ t, Schema.Uses schema t → ∀ b, t.Names b → api.types.contains b = true) ∧
    ∃ queries, d.selectedQueries s = .ok queries ∧
      api.types = (d.outcome s queries).pass.types ∧
      ∀ n, ¬((d.outcome s queries).pass.aliases.contains n = true ∧
        (d.outcome s queries).pass.declarations.contains n = true) := by
  have hnames : {n | api.types.contains n = true} = {n | d.Reachable s n} :=
    Set.ext fun n => contains_types_of_build h
  refine ⟨?_, fun n schema hschema => translation_of_build h hschema, ?_, ?_, ?_⟩
  · rw [hnames]
    exact d.reachable_isLeast s
  · intro x hx t ht n hn
    exact (contains_types_of_build h).mpr (.start (isRoot_of_query h hx ht hn))
  · intro n schema hschema t ht b hb
    have hn : d.Reachable s n :=
      (contains_types_of_build h).mp (SortedMap.contains_iff_exists.mpr ⟨schema, hschema⟩)
    exact (contains_types_of_build h).mpr
      (Registry.Reachable.step hn (refersTo_of_type h hschema ht hb))
  · obtain ⟨queries, hqueries, -, rfl⟩ := build_eq_ok h
    exact ⟨queries, hqueries, rfl, d.collected_apart s queries⟩

/-- The closure of a cycle is finite and closed. -/
theorem build_types_closure_nodeTree :
    ∃ api, NodeTree.definition.build ⟨.classic, none, true⟩ = .ok api ∧
      IsLeast {names | NodeTree.definition.Closed ⟨.classic, none, true⟩ names}
        {n | api.types.contains n = true} := by
  obtain ⟨api, h⟩ := NodeTree.exists_build
  exact ⟨api, h, (build_types_closure h).1⟩

end ApiDefinition

end ApiChronicle
