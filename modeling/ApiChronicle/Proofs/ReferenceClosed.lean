import ApiChronicle.Proofs.BuildSuccess
import ApiChronicle.Proofs.Registry

/-! # ApiChronicle.Proofs.ReferenceClosed

**Definitions in which every mentioned name is declared**, and the faults that they
cannot have.

A registry *grounds* a use if every name in it is declared, and declared as an alias for all
versions if it stands for one. In a reference-closed definition the registry grounds
whatever a type or an endpoint uses. Nothing that such a definition leads to is
then missing or of the wrong kind: not the type whose IDs an index asks for
(`ApiDefinition.ReferenceClosed.queries_ne_missing`), and no type that a build reaches
(`ApiDefinition.ReferenceClosed.build_not_dangling`). A type may still not exist at a
version; that is another fault.
-/

namespace ApiChronicle

/-! ### Grounded uses -/

namespace Registry

/-- The registry declares a mentioned name, as what it is mentioned. -/
def Holds (r : Registry) : Mention → Prop
  | .alias n => n.isAlias = true ∧ ∃ shape, r.get? n = some (.constant (.alias shape))
  | .declaration n => n.isAlias = false ∧ ∃ history, r.get? n = some history

/-- Whatever stands in a use is declared, and an alias is one at every version. -/
inductive Grounds (r : Registry) : TypeUse → Prop
  | primitive {p} : Grounds r (.primitive p)
  | array {t nullable} (elements : Grounds r t) : Grounds r (.array t nullable)
  | map {k t nullable} (keys : Grounds r k) (values : Grounds r t) :
      Grounds r (.map k t nullable)
  | alias {n shape} (kind : n.isAlias = true)
      (declared : r.get? n = some (.constant (.alias shape))) : Grounds r (.alias n)
  | declaration {n history} (kind : n.isAlias = false) (declared : r.get? n = some history) :
      Grounds r (.declaration n)

variable {r : Registry} {m : Mention} {t : TypeUse} {v : Version} {n : QualifiedName}

theorem Holds.wellKinded (h : r.Holds m) : m.WellKinded := by
  cases m with
  | «alias» n => exact h.1
  | declaration n => exact h.1

theorem Holds.contains (h : r.Holds m) : r.contains m.name = true := by
  cases m with
  | «alias» n => exact contains_iff.mpr ⟨_, h.2.choose_spec⟩
  | declaration n => exact contains_iff.mpr h.2

/-- What is grounded has its mentions held. -/
theorem Grounds.holds (h : r.Grounds t) (hm : m ∈ t.mentions) : r.Holds m := by
  induction h with
  | primitive => cases hm
  | array _ ih => exact ih hm
  | map _ _ ihKeys ihValues => exact (List.mem_append.mp hm).elim ihKeys ihValues
  | «alias» kind declared =>
      obtain rfl := List.mem_singleton.mp hm
      exact ⟨kind, _, declared⟩
  | declaration kind declared =>
      obtain rfl := List.mem_singleton.mp hm
      exact ⟨kind, _, declared⟩

theorem Grounds.wellKinded (h : r.Grounds t) : t.WellKinded := fun _ hm => (h.holds hm).wellKinded

theorem Grounds.contains (h : r.Grounds t) (hn : t.Names n) : r.contains n = true := by
  obtain ⟨m, hm, rfl⟩ := TypeUse.names_iff_mention.mp hn
  exact (h.holds hm).contains

/-- Declared types use what is grounded, and the name of an alias is that of one at every
version. -/
structure ReferenceClosed (r : Registry) : Prop where
  types : ∀ n history, r.get? n = some history →
    ∀ d ∈ history.declarations, ∀ t, d.Uses t → r.Grounds t
  aliases : ∀ n history, n.isAlias = true → r.get? n = some history →
    ∃ shape, history = .constant (.alias shape)

namespace ReferenceClosed

theorem wellKinded (h : r.ReferenceClosed) : r.WellKinded := fun e he d hd t ht =>
  (h.types e.1 e.2 (SortedMap.get?_eq_some_iff.mpr he) d hd t ht).wellKinded

theorem grounds (h : r.ReferenceClosed) {d : Declaration} (hd : r.Declares v n d)
    (ht : d.Uses t) : r.Grounds t := by
  obtain ⟨history, hget, hat⟩ := hd
  exact h.types n history hget d (History.mem_declarations_of_at? hat) t ht

theorem kind_of_isAlias (h : r.ReferenceClosed) (halias : n.isAlias = true) {d : Declaration}
    (hd : r.Declares v n d) : d.kind = .alias := by
  obtain ⟨history, hget, hat⟩ := hd
  obtain ⟨shape, rfl⟩ := h.aliases n history halias hget
  obtain rfl := Option.some.inj hat
  rfl

/-- Whatever declared names lead to is declared. -/
theorem contains_of_reachable (h : r.ReferenceClosed) {start : Set QualifiedName}
    (hstart : ∀ n ∈ start, r.contains n = true) (hn : r.Reachable v start n) :
    r.contains n = true := by
  refine hn.mem_of_closed (show start ⊆ {n | r.contains n = true} from hstart) ?_
  intro a _ b href
  obtain ⟨d, t, hd, ht, hb⟩ := href
  exact (h.grounds hd ht).contains hb

end ReferenceClosed

end Registry

/-- Types and endpoints use only what is grounded, and the auxiliary types are declared. -/
structure ApiDefinition.ReferenceClosed (d : ApiDefinition) : Prop where
  registry : d.registry.ReferenceClosed
  endpoints : ∀ e ∈ d.endpoints, ∀ t ∈ e.types, d.registry.Grounds t
  auxiliary : ∀ n, d.registry.auxiliary.contains n = true → d.registry.contains n = true

/-! ### Endpoints -/

namespace Endpoint

variable {r : Registry} {e : Endpoint}

theorem checkIdType_ne_missing {path key : String} {type : TypeUse} (h : r.Grounds type)
    (n : QualifiedName) : checkIdType r path key type ≠ .error (.missingDeclaration n) := by
  cases type with
  | primitive p =>
      simp only [checkIdType]
      split <;> simp
  | «alias» name =>
      cases h with
      | «alias» _ hget =>
          simp only [checkIdType, hget, Option.map_some, History.first]
          split <;> simp
  | _ => simp [checkIdType]

theorem idType_ne_missing (hr : r.ReferenceClosed) {base : Query}
    (hbase : ∀ t ∈ base.schema.entries.map Entry.value, r.Grounds t) (key : String)
    (n : QualifiedName) : idType r base key ≠ .error (.missingDeclaration n) := by
  have hresponse : r.Grounds ((base.schema.at? .classic).getD base.schema.first.value) := by
    refine hbase _ ?_
    cases hclassic : base.schema.at? .classic with
    | none => exact List.mem_map_of_mem List.mem_cons_self
    | some t => exact Timeline.mem_values_of_at? hclassic
  unfold idType
  simp only
  split
  · next name hname =>
    rw [hname] at hresponse
    obtain ⟨-, history, hget⟩ := hresponse.holds (List.mem_singleton_self _)
    simp only [hget]
    split
    · simp
    next properties hproperties =>
    split
    · simp
    next p hp =>
    refine checkIdType_ne_missing ?_ n
    refine hr.types name history hget _ ?_ _
      (uses_of_properties? hproperties (SortedMap.mem_values_iff.mpr ⟨key, hp⟩))
    cases hclassic : history.at? .classic with
    | none => exact history.first_mem_declarations
    | some d => exact History.mem_declarations_of_at? hclassic
  · simp

theorem queries_ne_missing (hr : r.ReferenceClosed) (he : ∀ t ∈ e.types, r.Grounds t)
    (n : QualifiedName) : e.queries r ≠ .error (.missingDeclaration n) := by
  intro h
  rcases Except.bind_eq_error_iff.mp h with h | ⟨base, hbase, h⟩
  · obtain ⟨cause, h⟩ := baseQuery_eq_error h
    cases h
  cases hindex : e.index with
  | none =>
      rw [hindex] at h
      cases h
  | some index =>
      rw [hindex] at h
      rcases Except.bind_eq_error_iff.mp h with h | ⟨type, -, h⟩
      · refine idType_ne_missing hr (fun t ht => he t ?_) index.idKey n h
        exact List.mem_append_right _ (mem_schemas_of_schemaTimeline (baseQuery_eq_ok hbase).2 ht)
      · cases h

end Endpoint

/-! ### Builds -/

/-- The fault is about a name that is not declared, or not as what it is mentioned. -/
inductive ApiError.Dangling : ApiError → Prop
  | undeclared {n} : Dangling (.definition (.missingDeclaration n))
  | missing {n} : Dangling (.resolve (.missing n))
  | notAlias {n kind} : Dangling (.resolve (.notAlias n kind))

namespace ApiDefinition.ReferenceClosed

variable {d : ApiDefinition} {s : Selection}

theorem wellKinded (h : d.ReferenceClosed) : d.WellKinded :=
  ⟨h.registry.wellKinded, fun e he t ht => (h.endpoints e he t ht).wellKinded⟩

theorem queries_ne_missing (h : d.ReferenceClosed) {e : Endpoint} (he : e ∈ d.endpoints)
    (n : QualifiedName) : e.queries d.registry ≠ .error (.missingDeclaration n) :=
  Endpoint.queries_ne_missing h.registry (h.endpoints e he) n

/-- The registry declares every name that a selection starts from. -/
theorem contains_of_isRoot (h : d.ReferenceClosed) {n : QualifiedName} (hn : d.IsRoot s n) :
    d.registry.contains n = true := by
  cases hn with
  | query offered _ uses names =>
      obtain ⟨e, he, -, queries, hqueries, hq⟩ := offered
      obtain ⟨m, hm, rfl⟩ := TypeUse.names_iff_mention.mp names
      rcases Endpoint.mem_mentions_of_queries hqueries hq uses hm with
        ⟨t, ht, hm⟩ | ⟨n, history, decl, t, hget, hdecl, ht, hm⟩
      · exact ((h.endpoints e he t ht).holds hm).contains
      · exact ((h.registry.types n history hget decl hdecl t ht).holds hm).contains
  | auxiliary _ member _ => exact h.auxiliary n member

/-- The registry declares every name that a selection leads to. -/
theorem contains_of_reachable (h : d.ReferenceClosed) {n : QualifiedName}
    (hn : d.Reachable s n) : d.registry.contains n = true :=
  h.registry.contains_of_reachable (fun _ hroot => h.contains_of_isRoot hroot) hn

/-- No build of a reference-closed definition fails at a name that is not declared, or not
as what it is mentioned. -/
theorem build_not_dangling (h : d.ReferenceClosed) {error : ApiError}
    (herror : d.build s = .error error) : ¬error.Dangling := by
  intro hdangling
  -- a build fails while it asks the endpoints for their queries, or at a name it reaches
  cases hqueries : d.selectedQueries s with
  | error cause =>
      obtain rfl : cause = error :=
        Except.error.inj ((build_eq_of_selectedQueries_eq_error hqueries).symm.trans herror)
      rcases selectedQueries_eq_error hqueries with ⟨name, rfl⟩ | ⟨e, he, cause, hcause, rfl⟩
      · cases hdangling
      · cases hdangling
        exact h.queries_ne_missing he _ hcause
  | ok queries =>
      obtain ⟨e, he, rfl⟩ := build_eq_error hqueries herror
      obtain ⟨n, hreach, hbroken⟩ := (d.outcome_resolves s queries).exists_broken
        h.registry.wellKinded (wellKinded_rootMentions h.wellKinded hqueries) he
      rw [mentioned_rootMentions hqueries] at hreach
      cases hbroken with
      | missing undeclared =>
          obtain ⟨history, hget⟩ := Registry.contains_iff.mp (h.contains_of_reachable hreach)
          rw [undeclared] at hget
          cases hget
      | unavailable _ _ => cases hdangling
      | notAlias named declared kind =>
          exact kind (h.registry.kind_of_isAlias named declared)

end ApiDefinition.ReferenceClosed

end ApiChronicle
