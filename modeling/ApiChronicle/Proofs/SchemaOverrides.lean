import ApiChronicle.Proofs.EndpointQueries

/-! # ApiChronicle.Proofs.SchemaOverrides

**Which response an endpoint serves** at a version.

The responses of an endpoint are dated with the version they hold from. At a version of
the endpoint's window, the response in force is the one that has started last by then.
There is none if the endpoint exists before its earliest response starts, and the endpoint
then serves a response that is still awaited. `response_in_force` says that these are the
two possibilities, and that the second one arises exactly if no response has started when
the endpoint's window begins.

What is shown at a version is known from `ApiChronicle.Proofs.DatedValues`, for any values
that are listed by their starts. The responses of an endpoint come in any order
(`at?_baseQuery`).
-/

namespace ApiChronicle

namespace Endpoint

open Timeline (InForce Awaited)

variable {e : Endpoint} {r : Registry} {queries : List Query} {q : Query} {v : Version}
  {type : TypeUse}

/-- The window of an endpoint that offers queries is one. -/
theorem valid_of_baseQuery {base : Query} (h : e.baseQuery = .ok base) :
    (⟨e.since, e.stop⟩ : Window).Valid := by
  obtain ⟨window, hwindow, -⟩ := Except.bind_eq_ok_iff.mp h
  have hbounds := Except.mapError_eq_ok_iff.mp hwindow
  obtain rfl := Window.ofBounds_eq_ok hbounds
  exact Window.valid_of_ofBounds hbounds

/-- At the versions of an endpoint's window, its query shows the response that is in force or
awaited. -/
theorem at?_baseQuery {base : Query} (h : e.baseQuery = .ok base) :
    base.schema.at? v = some type ↔ (⟨e.since, e.stop⟩ : Window).contains v = true ∧
      ∃ since, InForce e.schemas v (since, type) ∨ Awaited e.schemas v (since, type) := by
  have hschema := (baseQuery_eq_ok h).2
  rw [window_of_baseQuery h] at hschema
  obtain ⟨l, whole, hperm, sorted, hwhole, hrestrict⟩ := schemaTimeline_eq_ok hschema
  cases hv : (⟨e.since, e.stop⟩ : Window).contains v with
  | false =>
      have ht := Timeline.successive_of_spans sorted hwhole
      simp [Timeline.at?_restrict_outside ht hrestrict hv]
  | true =>
      rw [Timeline.at?_restrict_spans sorted hwhole hrestrict hv]
      constructor
      · intro hl
        obtain ⟨since, hl⟩ := hl
        exact ⟨rfl, since, hl.imp (InForce.of_perm hperm) (Awaited.of_perm hperm)⟩
      · intro he
        obtain ⟨-, since, he⟩ := he
        exact ⟨since, he.imp (InForce.of_perm hperm.symm) (Awaited.of_perm hperm.symm)⟩

/-- **An endpoint serves the response in force, or the one that is awaited.** The query of an
endpoint without an index has a response at the versions of the endpoint's window. It is the
response that has started last by the version; if none has started, it is the response that
starts first. So the response in force is served at every version exactly if some response
has started when the window begins. -/
theorem response_in_force (h : e.queries r = .ok queries) (hindex : e.index = none)
    (hq : q ∈ queries) :
    (∀ v type, q.schema.at? v = some type ↔ (⟨e.since, e.stop⟩ : Window).contains v = true ∧
      ∃ since, InForce e.schemas v (since, type) ∨ Awaited e.schemas v (since, type)) ∧
    ((∀ v type, q.schema.at? v = some type ↔ (⟨e.since, e.stop⟩ : Window).contains v = true ∧
        ∃ since, InForce e.schemas v (since, type)) ↔
      ∃ dated ∈ e.schemas, dated.1 ≤ e.since) := by
  obtain ⟨base, hbase, hqueries⟩ := queries_eq_ok h
  obtain rfl : q = base := by
    rcases hqueries with rfl | ⟨index, -, hsome, -⟩
    · exact List.mem_singleton.mp hq
    · cases hindex.symm.trans hsome
  have hat : ∀ v type, q.schema.at? v = some type ↔ _ := fun v type => at?_baseQuery hbase
  refine ⟨hat, fun hforce => ?_, fun hstarted v type => ?_⟩
  · -- look at the version the window starts with
    have hstart : (⟨e.since, e.stop⟩ : Window).contains e.since = true :=
      Window.contains_iff.mpr ⟨Nat.le_refl _, valid_of_baseQuery hbase⟩
    obtain ⟨type, htype⟩ := exists_schema_of_contains h hq (v := e.since)
      (window_of_baseQuery hbase ▸ hstart)
    obtain ⟨-, since, hmem, hle, -⟩ := (hforce e.since type).mp htype
    exact ⟨_, hmem, hle⟩
  · obtain ⟨dated, hmem, hle⟩ := hstarted
    rw [hat]
    refine and_congr_right fun hv => exists_congr fun since => or_iff_left fun hawaited => ?_
    obtain ⟨-, hlt, hleast⟩ := hawaited
    have hsince : e.since ≤ v := (Window.contains_iff.mp hv).1
    exact Nat.not_lt_of_le (Nat.le_trans (hleast _ hmem) (Nat.le_trans hle hsince)) hlt

/-- An endpoint whose responses have been revised, and which is older than all of them. -/
def revised : Endpoint :=
  { make "Colors" "/colors" with
    schemas := [(.dated20201117, .primitive .string), (.dated20190322, .primitive .integer)] }

theorem mergeSort_revised : (revised.schemas.mergeSort fun a b => a.1 ≤ b.1) =
    [(.dated20190322, .primitive .integer), (.dated20201117, .primitive .string)] := by
  simp [revised, List.mergeSort, Version.le_iff_rank, Version.rank]

/-- The earliest response is awaited at first and in force later, until the next one is. -/
theorem response_in_force_revised :
    ∃ q, revised.queries .empty = .ok [q] ∧
      q.schema.at? .classic = some (.primitive .integer) ∧
      q.schema.at? .dated20190516 = some (.primitive .integer) ∧
      q.schema.at? .dated20220309 = some (.primitive .string) := by
  have hok : (revised.queries .empty).isOk = true := by
    unfold queries baseQuery schemaTimeline
    rw [mergeSort_revised]
    decide +kernel
  obtain ⟨queries, hqueries⟩ := Except.isOk_iff_exists.mp hok
  obtain ⟨base, -, rfl | ⟨index, -, hsome, -⟩⟩ := queries_eq_ok hqueries
  swap
  · cases hsome
  have hat := (response_in_force hqueries rfl (List.mem_singleton_self base)).1
  refine ⟨base, hqueries, (hat _ _).mpr ⟨by decide, .dated20190322, Or.inr ?_⟩,
    (hat _ _).mpr ⟨by decide, .dated20190322, Or.inl ?_⟩,
    (hat _ _).mpr ⟨by decide, .dated20201117, Or.inl ?_⟩⟩
  · exact ⟨by decide, by decide, by decide⟩
  · exact ⟨by decide, by decide, by decide⟩
  · exact ⟨by decide, by decide, by decide⟩

/-- An endpoint of every version whose only response starts later. -/
def belated : Endpoint :=
  { make "Things" "/things" with schemas := [(.dated20190516, .primitive .string)] }

/-- A response is served at a version before its own start, where no response is in force. -/
theorem served_before_its_start :
    ∃ q, belated.queries .empty = .ok [q] ∧ belated.index = none ∧
      q.schema.at? .classic = some (.primitive .string) ∧
      (∀ dated ∈ belated.schemas, Version.classic < dated.1) ∧
      ¬∃ since, InForce belated.schemas .classic (since, .primitive .string) := by
  have hlate : ∀ dated ∈ belated.schemas, Version.classic < dated.1 := by decide
  refine ⟨⟨belated.request, .unbounded, .single (.primitive .string) .unbounded⟩, ?_, rfl, rfl,
    hlate, fun hforce => ?_⟩
  · unfold queries baseQuery schemaTimeline
    rw [show belated.schemas = [(.dated20190516, .primitive .string)] from rfl,
      List.mergeSort_singleton]
    rfl
  · obtain ⟨since, hmem, hle, -⟩ := hforce
    exact Nat.not_lt_of_le hle (hlate _ hmem)

end Endpoint

end ApiChronicle
