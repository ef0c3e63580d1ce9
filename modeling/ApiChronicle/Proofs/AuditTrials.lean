import ApiChronicle.Audit
import ApiChronicle.Proofs.BuildSuccess

/-! # ApiChronicle.Proofs.AuditTrials

**What an audit tries**, and what it makes of the results.

An audit resolves each query and each auxiliary type at each version, every time
from nothing. `Audit.Trial` lists these runs as pairs of the mentions that are
resolved and their outcome, without the loops that make them. Two facts carry
everything that is said about an audit: it finds no fault exactly if every endpoint
makes its queries and every trial succeeds (`faults_eq_nil_iff`), and it has then
reached the names that some trial has reported (`mem_reachedNames`).
-/

namespace ApiChronicle

/-- What a query mentions at a version; nothing if it does not exist there. -/
def Query.mentionsAt (q : Query) (v : Version) : List Mention :=
  ((q.at? v).map ResolvedQuery.mentions).getD []

namespace Audit

/-! ### Runs of one trial -/

section Runs

variable {trial : Version → Outcome} {versions : List Version} {location : String}

theorem firstFailure?_eq_none_iff :
    firstFailure? trial versions = none ↔ ∀ v ∈ versions, (trial v).result = .ok () := by
  unfold firstFailure?
  rw [List.findSome?_eq_none_iff]
  refine forall₂_congr fun v _ => ?_
  cases (trial v).result <;> simp

theorem failureOf_eq_nil_iff :
    failureOf location trial versions = [] ↔ ∀ v ∈ versions, (trial v).result = .ok () := by
  rw [← firstFailure?_eq_none_iff]
  unfold failureOf
  cases firstFailure? trial versions <;> simp

theorem eq_of_mem_failureOf {x : Diagnostic} (h : x ∈ failureOf location trial versions) :
    ∃ v cause, x = ⟨.error, location, .unresolvable v cause⟩ := by
  unfold failureOf at h
  cases hfirst : firstFailure? trial versions with
  | none =>
      rw [hfirst] at h
      exact absurd h List.not_mem_nil
  | some failure =>
      rw [hfirst] at h
      exact ⟨_, _, List.mem_singleton.mp h⟩

theorem mem_reached {n : QualifiedName} :
    n ∈ reached trial versions ↔
      ∃ v ∈ versions, (trial v).result = .ok () ∧
        ∃ rep ∈ (trial v).pass.reports, rep.name = n := by
  unfold reached
  rw [List.mem_flatMap]
  refine exists_congr fun v => and_congr_right fun _ => ?_
  cases (trial v).result with
  | error cause => simp
  | ok u => simp

theorem succeeds_iff {v : Version} : succeeds trial v = true ↔ (trial v).result = .ok () := by
  unfold succeeds
  rw [Except.isOk_iff_exists]
  exact ⟨fun ⟨_, h⟩ => h, fun h => ⟨_, h⟩⟩

end Runs

/-! ### The trials of an audit -/

variable {d : ApiDefinition} {v : Version} {ms : List Mention} {o : Outcome} {n : QualifiedName}

/-- The audit resolves these mentions from nothing at the version, with this outcome. -/
inductive Trial (d : ApiDefinition) (v : Version) : List Mention → Outcome → Prop
  | query {e queries q} (endpoint : e ∈ d.endpoints) (made : e.queries d.registry = .ok queries)
      (member : q ∈ queries) : Trial d v (q.mentionsAt v) (queryTrial d.registry q v)
  | auxiliary {a} (member : a ∈ d.auxiliaryAt v) :
      Trial d v [ApiDefinition.auxiliaryMention a] (auxiliaryTrial d.registry a v)

theorem queryTrial_resolves (r : Registry) (q : Query) (v : Version) :
    r.Resolves v (q.mentionsAt v) .empty (queryTrial r q v) := by
  unfold queryTrial Query.resolve Query.mentionsAt
  cases q.at? v with
  | none => exact .done
  | some x => exact r.resolveMentions_resolves v x.mentions .empty

theorem Trial.resolves (h : Trial d v ms o) : d.registry.Resolves v ms .empty o := by
  cases h with
  | query _ _ _ => exact queryTrial_resolves ..
  | auxiliary _ => exact d.registry.resolve_resolves ..

theorem mem_mentionsAt {q : Query} {m : Mention} :
    m ∈ q.mentionsAt v ↔ ∃ x, q.at? v = some x ∧ m ∈ x.mentions := by
  unfold Query.mentionsAt
  cases q.at? v <;> simp

/-- In a well-kinded definition the audit tries well-kinded mentions only. -/
theorem Trial.wellKinded (h : Trial d v ms o) (hk : d.WellKinded) :
    ∀ m ∈ ms, m.WellKinded := by
  cases h with
  | query endpoint made member =>
      intro m hm
      obtain ⟨x, hat, hm⟩ := mem_mentionsAt.mp hm
      obtain ⟨t, ht, hm⟩ := ResolvedQuery.mem_mentions_iff.mp hm
      exact Endpoint.wellKinded_of_queries (hk.endpoints _ endpoint) hk.registry made member
        ((Query.uses_at? hat).mp ht) m hm
  | auxiliary _ =>
      intro m hm
      obtain rfl := List.mem_singleton.mp hm
      exact ApiDefinition.wellKinded_auxiliaryMention _

/-- The trials at a version start from the roots of the whole API there. -/
theorem isRoot_iff_trial :
    d.IsRoot ⟨v, none, true⟩ n ↔ ∃ ms o, Trial d v ms o ∧ n ∈ Registry.mentioned ms := by
  constructor
  · intro hroot
    cases hroot with
    | @query q t _ offered window uses names =>
        obtain ⟨e, he, -, queries, hqueries, hq⟩ := offered
        obtain ⟨schema, hschema⟩ := Endpoint.exists_schema_of_contains hqueries hq window
        have hat : q.at? v = some ⟨q.request, schema⟩ :=
          Query.at?_eq_some_iff.mpr ⟨window, schema, hschema, rfl⟩
        obtain ⟨m, hm, rfl⟩ := TypeUse.names_iff_mention.mp names
        refine ⟨_, _, .query he hqueries hq, m, mem_mentionsAt.mpr ⟨_, hat, ?_⟩, rfl⟩
        exact ResolvedQuery.mem_mentions_iff.mpr ⟨t, (Query.uses_at? hat).mpr uses, hm⟩
    | auxiliary _ member declared =>
        refine ⟨_, _, .auxiliary (ApiDefinition.mem_auxiliaryAt.mpr ⟨member, _, declared⟩), ?_⟩
        exact ⟨_, List.mem_singleton_self _, ApiDefinition.name_auxiliaryMention n⟩
  · intro h
    obtain ⟨ms, o, htrial, m, hm, rfl⟩ := h
    cases htrial with
    | query endpoint made member =>
        obtain ⟨x, hat, hm⟩ := mem_mentionsAt.mp hm
        obtain ⟨t, ht, hm⟩ := ResolvedQuery.mem_mentions_iff.mp hm
        exact .query ⟨_, endpoint, rfl, _, made, member⟩ (Query.at?_eq_some_iff.mp hat).1
          ((Query.uses_at? hat).mp ht) (TypeUse.names_iff_mention.mpr ⟨m, hm, rfl⟩)
    | auxiliary member =>
        obtain rfl := List.mem_singleton.mp hm
        obtain ⟨hmember, decl, hdecl⟩ := ApiDefinition.mem_auxiliaryAt.mp member
        rw [ApiDefinition.name_auxiliaryMention]
        exact .auxiliary rfl hmember hdecl

theorem mem_auxiliaryVersions (r : Registry) :
    v ∈ auxiliaryVersions r n ↔ ∃ decl, r.Declares v n decl := by
  unfold auxiliaryVersions Registry.Declares
  rw [List.mem_filter, Option.isSome_iff_exists]
  simp only [Version.mem_all, true_and, Option.bind_eq_some_iff]

/-- An auxiliary type is tried where it exists. -/
theorem mem_auxiliaryAt_iff :
    n ∈ d.auxiliaryAt v ↔
      n ∈ d.registry.auxiliary.keys ∧ v ∈ auxiliaryVersions d.registry n := by
  rw [ApiDefinition.mem_auxiliaryAt, SortedMap.mem_keys_iff, mem_auxiliaryVersions]

/-! ### Faults -/

theorem diagnostics_ofEndpoint_eq_nil_iff {r : Registry} {e : Endpoint} :
    (ofEndpoint r e).diagnostics = [] ↔
      ∃ queries, e.queries r = .ok queries ∧
        ∀ q ∈ queries, ∀ v, (queryTrial r q v).result = .ok () := by
  unfold ofEndpoint
  cases e.queries r with
  | error cause => simp
  | ok queries => simp [failureOf_eq_nil_iff, Version.mem_all]

/-- The diagnostics of an audit that are errors whether it is strict or not. -/
def faults (d : ApiDefinition) : List Diagnostic :=
  (d.endpoints.flatMap fun e => (ofEndpoint d.registry e).diagnostics) ++
    d.registry.auxiliary.keys.flatMap fun name =>
      failureOf name.text (auxiliaryTrial d.registry name) (auxiliaryVersions d.registry name)

theorem diagnostics_ofDefinition (d : ApiDefinition) (strict : Bool) :
    (ofDefinition d strict).diagnostics = faults d ++ unreachableTypes d strict := by
  simp [diagnostics, ofDefinition, faults, List.flatMap_map]

/-- A fault is an error, and is not about reachability. -/
theorem of_mem_faults {x : Diagnostic} (h : x ∈ faults d) :
    x.severity = .error ∧ (x.finding.code = "E001" ∨ x.finding.code = "E002") := by
  rcases List.mem_append.mp h with h | h
  · obtain ⟨e, -, hx⟩ := List.mem_flatMap.mp h
    unfold ofEndpoint at hx
    cases hqueries : e.queries d.registry with
    | error cause =>
        rw [hqueries] at hx
        obtain rfl := List.mem_singleton.mp hx
        exact ⟨rfl, Or.inl rfl⟩
    | ok queries =>
        rw [hqueries] at hx
        obtain ⟨q, -, hx⟩ := List.mem_flatMap.mp hx
        obtain ⟨v, cause, rfl⟩ := eq_of_mem_failureOf hx
        exact ⟨rfl, Or.inr rfl⟩
  · obtain ⟨name, -, hx⟩ := List.mem_flatMap.mp h
    obtain ⟨v, cause, rfl⟩ := eq_of_mem_failureOf hx
    exact ⟨rfl, Or.inr rfl⟩

/-- An audit finds no fault exactly if every endpoint makes its queries and every
trial succeeds. -/
theorem faults_eq_nil_iff :
    faults d = [] ↔
      (∀ e ∈ d.endpoints, ∃ queries, e.queries d.registry = .ok queries) ∧
      ∀ v ms o, Trial d v ms o → o.result = .ok () := by
  unfold faults
  rw [List.append_eq_nil_iff, List.flatMap_eq_nil_iff, List.flatMap_eq_nil_iff]
  simp only [diagnostics_ofEndpoint_eq_nil_iff, failureOf_eq_nil_iff]
  constructor
  · intro h
    obtain ⟨hendpoints, hauxiliary⟩ := h
    refine ⟨fun e he => (hendpoints e he).imp fun _ h => h.1, ?_⟩
    intro v ms o htrial
    cases htrial with
    | query endpoint made member =>
        obtain ⟨queries, hqueries, hok⟩ := hendpoints _ endpoint
        obtain rfl := Except.ok.inj (made.symm.trans hqueries)
        exact hok _ member v
    | auxiliary member =>
        obtain ⟨hkey, hversion⟩ := mem_auxiliaryAt_iff.mp member
        exact hauxiliary _ hkey v hversion
  · intro h
    obtain ⟨hqueries, htrials⟩ := h
    refine ⟨fun e he => ?_, fun n hkey v hversion => ?_⟩
    · obtain ⟨queries, hmade⟩ := hqueries e he
      exact ⟨queries, hmade, fun q hq v => htrials _ _ _ (.query he hmade hq)⟩
    · exact htrials _ _ _ (.auxiliary (mem_auxiliaryAt_iff.mpr ⟨hkey, hversion⟩))

/-! ### Reached names -/

/-- An auxiliary type that never fails is tried to the end. -/
theorem mem_reachedByAuxiliary {r : Registry}
    (h : ∀ v ∈ auxiliaryVersions r n, (auxiliaryTrial r n v).result = .ok ())
    {m : QualifiedName} :
    m ∈ reachedByAuxiliary r n ↔
      ∃ v ∈ auxiliaryVersions r n, ∃ rep ∈ (auxiliaryTrial r n v).pass.reports, rep.name = m := by
  have hall : (auxiliaryVersions r n).takeWhile (succeeds (auxiliaryTrial r n)) =
      auxiliaryVersions r n :=
    List.takeWhile_eq_self_iff.mpr fun v hv => succeeds_iff.mpr (h v hv)
  unfold reachedByAuxiliary
  rw [hall, mem_reached]
  exact exists_congr fun v => and_congr_right fun hv => and_iff_right (h v hv)

/-- An audit without faults has reached the names that its trials have reported. -/
theorem mem_reachedNames (h : faults d = []) :
    n ∈ reachedNames d ↔
      ∃ v ms o, Trial d v ms o ∧ ∃ rep ∈ o.pass.reports, rep.name = n := by
  obtain ⟨hqueries, htrials⟩ := faults_eq_nil_iff.mp h
  unfold reachedNames
  rw [List.mem_append, List.mem_flatMap, List.mem_flatMap]
  have htried : ∀ a ∈ d.registry.auxiliary.keys, ∀ v ∈ auxiliaryVersions d.registry a,
      Trial d v [ApiDefinition.auxiliaryMention a] (auxiliaryTrial d.registry a v) :=
    fun a ha v hv => .auxiliary (mem_auxiliaryAt_iff.mpr ⟨ha, hv⟩)
  constructor
  · intro hn
    rcases hn with ⟨e, he, hn⟩ | ⟨a, ha, hn⟩
    · obtain ⟨queries, hmade⟩ := hqueries e he
      unfold reachedByEndpoint at hn
      rw [hmade] at hn
      obtain ⟨q, hq, hn⟩ := List.mem_flatMap.mp hn
      obtain ⟨v, -, -, hrep⟩ := mem_reached.mp hn
      exact ⟨v, _, _, .query he hmade hq, hrep⟩
    · have hok := fun v hv => htrials _ _ _ (htried a ha v hv)
      obtain ⟨v, hv, hrep⟩ := (mem_reachedByAuxiliary hok).mp hn
      exact ⟨v, _, _, htried a ha v hv, hrep⟩
  · intro hreported
    obtain ⟨v, ms, o, htrial, hrep⟩ := hreported
    have hok := htrials v ms o htrial
    cases htrial with
    | query endpoint made member =>
        refine Or.inl ⟨_, endpoint, ?_⟩
        unfold reachedByEndpoint
        rw [made]
        exact List.mem_flatMap.mpr ⟨_, member, mem_reached.mpr ⟨v, v.mem_all, hok, hrep⟩⟩
    | @auxiliary a member =>
        obtain ⟨ha, hv⟩ := mem_auxiliaryAt_iff.mp member
        have hok := fun v hv => htrials _ _ _ (htried a ha v hv)
        exact Or.inr ⟨a, ha, (mem_reachedByAuxiliary hok).mpr ⟨v, hv, hrep⟩⟩

end Audit

end ApiChronicle
