import ApiChronicle.Audit.Written
import ApiChronicle.Proofs.AuditAgreement
import Mathlib.Data.List.Forall2

/-! # ApiChronicle.Proofs.AuditDiagnostics

**What an audit reports**, diagnostic by diagnostic.

An audit runs trials of each query and of each auxiliary type, at each version it tries. It
reports the first failure only. `FirstFailures` tells which diagnostics that makes of a list of
subjects, one rule for a subject that passes and one for a subject that fails, and `Reports`
tells from there what is said of an endpoint.

A failure stops the trials of an auxiliary type but not those of a query. So which types count as
reached, and are not warned of, is stated apart from the failures (`Counts`).

A strict audit is the lenient one with its warnings turned into errors (`ofDefinition_strict`).
Only diagnostics about unreachable types are ever warnings, so it has no others left.
-/

namespace ApiChronicle

/-! ### Warnings as errors -/

/-- A warning about an unreachable type becomes an error. -/
def Diagnostic.raised (x : Diagnostic) : Diagnostic :=
  if x.finding.code = "W001" then { x with severity := .error } else x

theorem Diagnostic.raised_of_ne {x : Diagnostic} (h : x.finding.code ≠ "W001") : x.raised = x :=
  if_neg h

theorem Diagnostic.severity_raised {x : Diagnostic}
    (h : x.severity = .error ∨ x.finding.code = "W001") : x.raised.severity = .error := by
  unfold raised
  split
  · rfl
  · exact h.resolve_right ‹_›

def EndpointAudit.raised (e : EndpointAudit) : EndpointAudit :=
  { e with diagnostics := e.diagnostics.map Diagnostic.raised }

namespace Audit

/-- All warnings about unreachable types become errors. -/
def raised (a : Audit) : Audit where
  endpoints := a.endpoints.map EndpointAudit.raised
  declarations := a.declarations.map Diagnostic.raised

theorem diagnostics_raised (a : Audit) :
    a.raised.diagnostics = a.diagnostics.map Diagnostic.raised := by
  simp [diagnostics, raised, EndpointAudit.raised, List.flatMap_map, List.map_flatMap]

/-! ### Sums -/

theorem passed_add_failed (a : Audit) : a.passed + a.failed = a.endpoints.length :=
  Nat.sub_add_cancel List.countP_le_length

/-- A diagnostic is an error or a warning. -/
theorem count_add_count (a : Audit) :
    a.count .error + a.count .warning = a.diagnostics.length := by
  rw [List.length_eq_countP_add_countP fun x : Diagnostic => decide (x.severity = .error)]
  refine congrArg (a.count .error + ·) (List.countP_congr fun x _ => ?_)
  cases x.severity <;> decide

/-- Where everything is an error, nothing is a warning. -/
theorem count_of_errors {a : Audit} (h : ∀ x ∈ a.diagnostics, x.severity = .error) :
    a.count .error = a.diagnostics.length ∧ a.count .warning = 0 := by
  have herror : a.count .error = a.diagnostics.length :=
    List.countP_eq_length.mpr fun x hx => decide_eq_true (h x hx)
  have hsum := a.count_add_count
  exact ⟨herror, by omega⟩

/-! ### First failures -/

/-- The version is the first of those tried at which the trial fails, with this error there. -/
def FailsFirst (trial : Version → Outcome) (tried : Set Version) (v : Version)
    (e : ResolveError) : Prop :=
  IsLeast {w ∈ tried | (trial w).result ≠ .ok ()} v ∧ (trial v).result = .error e

/-- The diagnostics about subjects of which trials are run: one for each subject that fails, in
their order. -/
inductive FirstFailures {α : Type} (trial : α → Version → Outcome) (tried : α → Set Version)
    (location : α → String) : List α → List Diagnostic → Prop
  | nil : FirstFailures trial tried location [] []
  | passes {a rest ds} (ok : ∀ v ∈ tried a, (trial a v).result = .ok ())
      (h : FirstFailures trial tried location rest ds) :
      FirstFailures trial tried location (a :: rest) ds
  | fails {a rest ds v e} (first : FailsFirst (trial a) (tried a) v e)
      (h : FirstFailures trial tried location rest ds) :
      FirstFailures trial tried location (a :: rest)
        (⟨.error, location a, .unresolvable v e⟩ :: ds)

section FirstFailures

variable {trial : Version → Outcome} {versions : List Version} {v : Version} {e : ResolveError}

theorem failsFirst_of_firstFailure? (hsorted : versions.Pairwise (· < ·))
    (h : firstFailure? trial versions = some (v, e)) :
    FailsFirst trial {w | w ∈ versions} v e := by
  obtain ⟨before, w, behind, rfl, hw, hbefore⟩ := List.findSome?_eq_some_iff.mp h
  obtain ⟨rfl, herror⟩ : w = v ∧ (trial w).result = .error e := by
    cases hresult : (trial w).result with
    | ok _ =>
        rw [hresult] at hw
        cases hw
    | error _ =>
        rw [hresult] at hw
        cases hw
        exact ⟨rfl, rfl⟩
  refine ⟨⟨⟨List.mem_append_right _ List.mem_cons_self, ?_⟩, fun x hx => ?_⟩, herror⟩
  · rw [herror]
    nofun
  · obtain ⟨hx, hfails⟩ := hx
    obtain ⟨-, hsorted, -⟩ := List.pairwise_append.mp hsorted
    rcases List.mem_append.mp hx with hx | hx
    · -- nothing before it has failed
      have hnone := hbefore x hx
      cases hresult : (trial x).result with
      | ok _ => exact absurd hresult hfails
      | error _ =>
          rw [hresult] at hnone
          cases hnone
    rcases List.mem_cons.mp hx with rfl | hx
    · exact Nat.le_refl _
    · exact Nat.le_of_lt (List.rel_of_pairwise_cons hsorted hx)

theorem firstFailures_flatMap {α : Type} {trial : α → Version → Outcome}
    {versions : α → List Version} {tried : α → Set Version} {location : α → String}
    (hsorted : ∀ a, (versions a).Pairwise (· < ·))
    (htried : ∀ a, {v | v ∈ versions a} = tried a) (subjects : List α) :
    FirstFailures trial tried location subjects
      (subjects.flatMap fun a => failureOf (location a) (trial a) (versions a)) := by
  induction subjects with
  | nil => exact .nil
  | cons a rest ih =>
      rw [List.flatMap_cons]
      unfold failureOf
      cases hfirst : firstFailure? (trial a) (versions a) with
      | none =>
          refine .passes (fun v hv => ?_) ih
          rw [← htried a] at hv
          exact firstFailure?_eq_none_iff.mp hfirst v hv
      | some failure =>
          exact .fails (htried a ▸ failsFirst_of_firstFailure? (hsorted a) hfirst) ih

end FirstFailures

/-! ### Endpoints -/

/-- What is reported about an endpoint. -/
inductive Reports (r : Registry) (e : Endpoint) : EndpointAudit → Prop
  /-- There is one diagnostic and no query if the queries cannot be made. -/
  | unbuildable {cause} (fails : e.queries r = .error cause) :
      Reports r e ⟨e.name, 0, [⟨.error, e.path, .unbuildable cause⟩]⟩
  /-- Queries are tried at every version, one after the other. -/
  | tried {queries ds} (made : e.queries r = .ok queries)
      (failures : FirstFailures (fun q v => q.resolve r v .empty) (fun _ => Set.univ)
        Query.location queries ds) :
      Reports r e ⟨e.name, queries.length, ds⟩

theorem reports_ofEndpoint (r : Registry) (e : Endpoint) : Reports r e (ofEndpoint r e) := by
  unfold ofEndpoint
  cases hqueries : e.queries r with
  | error cause => exact .unbuildable hqueries
  | ok queries =>
      refine .tried hqueries (firstFailures_flatMap (fun _ => Version.all_sorted) (fun _ => ?_) _)
      exact Set.eq_univ_of_forall Version.mem_all

/-- The status that is written down for an endpoint is that of an error. -/
def HasErrorStatus (a : EndpointAudit) : Prop :=
  a.toJson.member? "status" = some (.string "error")

theorem hasErrorStatus_iff {a : EndpointAudit} : HasErrorStatus a ↔ a.diagnostics ≠ [] := by
  have hstatus : a.toJson.member? "status" =
      some (.string (if a.isOk then "ok" else "error")) := rfl
  rw [HasErrorStatus, hstatus, EndpointAudit.isOk]
  cases a.diagnostics <;> simp

instance (a : EndpointAudit) : Decidable (HasErrorStatus a) :=
  decidable_of_iff _ hasErrorStatus_iff.symm

/-- The endpoints with that status are those that are counted as failed. -/
theorem failed_eq_countP (a : Audit) : a.failed = a.endpoints.countP (HasErrorStatus ·) := by
  refine List.countP_congr fun e _ => ?_
  rw [decide_eq_true_iff, hasErrorStatus_iff, EndpointAudit.isOk]
  simp

/-! ### Reached types -/

/-- Trials whose reports an audit counts: of a query each successful one, and of an auxiliary
type those before its first failure. -/
inductive Counts (d : ApiDefinition) : Outcome → Prop
  | query {e queries q v} (endpoint : e ∈ d.endpoints) (made : e.queries d.registry = .ok queries)
      (member : q ∈ queries) (ok : (q.resolve d.registry v .empty).result = .ok ()) :
      Counts d (q.resolve d.registry v .empty)
  | auxiliary {n v decl} (member : n ∈ d.registry.auxiliary.keys)
      (declared : d.registry.Declares v n decl)
      (ok : ∀ w ≤ v, ∀ decl, d.registry.Declares w n decl →
        (auxiliaryTrial d.registry n w).result = .ok ()) :
      Counts d (auxiliaryTrial d.registry n v)

theorem sorted_auxiliaryVersions (r : Registry) (n : QualifiedName) :
    (auxiliaryVersions r n).Pairwise (· < ·) :=
  Version.all_sorted.filter _

/-- A version of an increasing list is taken if none up to it is refused. -/
theorem mem_takeWhile_iff {p : Version → Bool} {versions : List Version} {v : Version}
    (hsorted : versions.Pairwise (· < ·)) :
    v ∈ versions.takeWhile p ↔ v ∈ versions ∧ ∀ w ∈ versions, w ≤ v → p w = true := by
  induction versions with
  | nil => simp
  | cons w rest ih =>
      obtain ⟨hlt, hsorted⟩ := List.pairwise_cons.mp hsorted
      by_cases hw : p w = true
      · rw [List.takeWhile_cons_of_pos hw, List.mem_cons, List.mem_cons, ih hsorted,
          List.forall_mem_cons]
        constructor
        · rintro (rfl | ⟨hv, hall⟩)
          · exact ⟨Or.inl rfl, fun _ => hw,
              fun x hx hle => absurd (hlt x hx) (Nat.not_lt.mpr hle)⟩
          · exact ⟨Or.inr hv, fun _ => hw, hall⟩
        · rintro ⟨hv | hv, -, hall⟩
          · exact Or.inl hv
          · exact Or.inr ⟨hv, hall⟩
      · rw [List.takeWhile_cons_of_neg hw]
        refine iff_of_false List.not_mem_nil fun h => hw ?_
        obtain ⟨hv, hall⟩ := h
        refine hall w List.mem_cons_self ?_
        rcases List.mem_cons.mp hv with rfl | hv
        · exact Nat.le_refl _
        · exact Nat.le_of_lt (hlt v hv)

/-- A name counts as reached if a trial that counts reports it. -/
theorem mem_reachedNames_iff {d : ApiDefinition} {n : QualifiedName} :
    n ∈ reachedNames d ↔ ∃ o, Counts d o ∧ ∃ rep ∈ o.pass.reports, rep.name = n := by
  unfold reachedNames
  rw [List.mem_append, List.mem_flatMap, List.mem_flatMap]
  constructor
  · rintro (⟨e, he, hn⟩ | ⟨a, ha, hn⟩)
    · unfold reachedByEndpoint at hn
      cases hmade : e.queries d.registry with
      | error cause =>
          rw [hmade] at hn
          cases hn
      | ok queries =>
          rw [hmade] at hn
          obtain ⟨q, hq, hn⟩ := List.mem_flatMap.mp hn
          obtain ⟨v, -, hok, hrep⟩ := mem_reached.mp hn
          exact ⟨_, .query he hmade hq hok, hrep⟩
    · obtain ⟨v, hv, -, hrep⟩ := mem_reached.mp hn
      obtain ⟨hv, hbefore⟩ := (mem_takeWhile_iff (sorted_auxiliaryVersions _ a)).mp hv
      obtain ⟨decl, declared⟩ := (mem_auxiliaryVersions _).mp hv
      refine ⟨_, .auxiliary ha declared fun w hw decl hdecl => ?_, hrep⟩
      exact succeeds_iff.mp (hbefore w ((mem_auxiliaryVersions _).mpr ⟨decl, hdecl⟩) hw)
  · rintro ⟨o, hcounts, hrep⟩
    cases hcounts with
    | @query e queries q v endpoint made member ok =>
        refine Or.inl ⟨e, endpoint, ?_⟩
        unfold reachedByEndpoint
        rw [made]
        exact List.mem_flatMap.mpr ⟨q, member, mem_reached.mpr ⟨v, v.mem_all, ok, hrep⟩⟩
    | @auxiliary a v decl member declared ok =>
        refine Or.inr ⟨a, member, mem_reached.mpr ⟨v, ?_, ok v (Nat.le_refl _) _ declared, hrep⟩⟩
        refine (mem_takeWhile_iff (sorted_auxiliaryVersions _ a)).mpr
          ⟨(mem_auxiliaryVersions _).mpr ⟨decl, declared⟩, fun w hw hle => ?_⟩
        obtain ⟨decl', hdecl⟩ := (mem_auxiliaryVersions _).mp hw
        exact succeeds_iff.mpr (ok w hle decl' hdecl)

/-! ### Strict and lenient audits -/

variable {d : ApiDefinition}

/-- An error about something else is left as it is. -/
theorem map_raised_faults {ds : List Diagnostic} (h : ∀ x ∈ ds, x ∈ faults d) :
    ds.map Diagnostic.raised = ds := by
  refine (List.map_congr_left fun x hx => Diagnostic.raised_of_ne ?_).trans (List.map_id ds)
  rcases (of_mem_faults (h x hx)).2 with hcode | hcode
  · rw [hcode]
    decide
  · rw [hcode]
    decide

/-- Only diagnostics about unreachable types are warnings. -/
theorem severity_or_code {x : Diagnostic} (h : x ∈ (ofDefinition d false).diagnostics) :
    x.severity = .error ∨ x.finding.code = "W001" := by
  rw [diagnostics_ofDefinition] at h
  rcases List.mem_append.mp h with h | h
  · exact Or.inl (of_mem_faults h).1
  · rw [unreachableTypes_eq_map] at h
    obtain ⟨name, -, rfl⟩ := List.mem_map.mp h
    exact Or.inr rfl

/-- **A strict audit** is the lenient one with its warnings turned into errors. -/
theorem ofDefinition_strict (d : ApiDefinition) :
    ofDefinition d true = (ofDefinition d false).raised := by
  have hendpoints : d.endpoints.map (ofEndpoint d.registry) =
      (d.endpoints.map (ofEndpoint d.registry)).map EndpointAudit.raised := by
    rw [List.map_map]
    refine List.map_congr_left fun e he => ?_
    have hsame : (ofEndpoint d.registry e).diagnostics.map Diagnostic.raised =
        (ofEndpoint d.registry e).diagnostics :=
      map_raised_faults (d := d) fun x hx =>
        List.mem_append_left _ (List.mem_flatMap.mpr ⟨e, he, hx⟩)
    rw [Function.comp_apply, EndpointAudit.raised, hsame]
  have hauxiliary := map_raised_faults (d := d) fun x hx => List.mem_append_right _ hx
  have hunreachable :
      (unreachableTypes d false).map Diagnostic.raised = unreachableTypes d true := by
    rw [unreachableTypes_eq_map, unreachableTypes_eq_map, List.map_map]
    rfl
  refine congrArg₂ Audit.mk hendpoints ?_
  exact (congrArg₂ _ hauxiliary.symm hunreachable.symm).trans List.map_append.symm

theorem count_strict (d : ApiDefinition) :
    (ofDefinition d true).count .error =
        (ofDefinition d false).count .error + (ofDefinition d false).count .warning ∧
      (ofDefinition d true).count .warning = 0 := by
  rw [ofDefinition_strict, count_add_count]
  have hlength : (ofDefinition d false).raised.diagnostics.length =
      (ofDefinition d false).diagnostics.length := by
    rw [diagnostics_raised, List.length_map]
  rw [← hlength]
  refine count_of_errors fun x hx => ?_
  rw [diagnostics_raised] at hx
  obtain ⟨y, hy, rfl⟩ := List.mem_map.mp hx
  exact Diagnostic.severity_raised (severity_or_code hy)

/-! ### Audits -/

/-- **What an audit reports.** For each endpoint there is one error and no query if its queries
cannot be made. Else there is one error for each query that fails at some version, in their
order, about the first of these versions. In the same way there is one for each auxiliary type
that fails at some version that has it. The types of which no trial that counts makes a report
follow. An endpoint has the status of an error if something was found about it. The endpoints
with this status are counted as failed and the others as passed, and the diagnostics of endpoints
and types add up. A strict audit differs in the severity of unreachable types alone, so that it
counts as errors what the lenient one counts as either. -/
theorem reports_of_definition (d : ApiDefinition) :
    (∀ strict,
      List.Forall₂ (Reports d.registry) d.endpoints (ofDefinition d strict).endpoints ∧
      (∃ (failures : List Diagnostic) (names : List QualifiedName),
        FirstFailures (fun n v => d.registry.resolve v (ApiDefinition.auxiliaryMention n) .empty)
          (fun n => {v | ∃ decl, d.registry.Declares v n decl}) QualifiedName.text
          d.registry.auxiliary.keys failures ∧
        names.Sublist d.registry.types.keys ∧
        (∀ n, n ∈ names ↔ d.registry.contains n = true ∧
          ¬∃ o, Counts d o ∧ ∃ rep ∈ o.pass.reports, rep.name = n) ∧
        (ofDefinition d strict).declarations = failures ++ names.map fun n =>
          ⟨if strict then .error else .warning, n.text, .unreachable⟩) ∧
      (∀ a ∈ (ofDefinition d strict).endpoints, HasErrorStatus a ↔ a.diagnostics ≠ []) ∧
      (ofDefinition d strict).failed =
        (ofDefinition d strict).endpoints.countP (HasErrorStatus ·) ∧
      (ofDefinition d strict).passed + (ofDefinition d strict).failed = d.endpoints.length ∧
      ∀ severity, (ofDefinition d strict).count severity =
        ((ofDefinition d strict).endpoints.flatMap (·.diagnostics)).countP
            (·.severity = severity) +
          (ofDefinition d strict).declarations.countP (·.severity = severity)) ∧
    ofDefinition d true = (ofDefinition d false).raised ∧
    (ofDefinition d true).count .error =
      (ofDefinition d false).count .error + (ofDefinition d false).count .warning ∧
    (ofDefinition d true).count .warning = 0 := by
  refine ⟨fun strict => ⟨?endpoints, ?declarations, ?status, ?failed, ?sum, ?counts⟩,
    ofDefinition_strict d, count_strict d⟩
  case endpoints =>
    exact List.forall₂_map_right_iff.mpr
      (List.forall₂_same.mpr fun e _ => reports_ofEndpoint d.registry e)
  case declarations =>
    refine ⟨_, _, firstFailures_flatMap (sorted_auxiliaryVersions d.registry) (fun n => ?_) _,
      List.filter_sublist (p := (· ∉ reachedNames d)), fun n => ?_, rfl⟩
    · exact Set.ext fun v => mem_auxiliaryVersions d.registry
    · rw [List.mem_filter, SortedMap.mem_keys_iff, decide_eq_true_iff, mem_reachedNames_iff]
      rfl
  case status => exact fun a _ => hasErrorStatus_iff
  case failed => exact failed_eq_countP _
  case sum =>
    rw [passed_add_failed]
    exact List.length_map _
  case counts => exact fun _ => List.countP_append

end Audit

end ApiChronicle
