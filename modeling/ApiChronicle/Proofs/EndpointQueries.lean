import ApiChronicle.Proofs.DatedValues
import ApiChronicle.Proofs.WellKinded

/-! # ApiChronicle.Proofs.EndpointQueries

**What the queries of an endpoint consist of.**

The queries of an endpoint are put together from its own uses of types, from the
type of an ID property of a declared type, and from primitives. So they mention
nothing that the endpoint or a declared type does not mention
(`mem_mentions_of_queries`), and are well-kinded if both are. The responses hold one
after the other and are cut to the endpoint's window, so a query has a response at
every version of its window (`exists_schema_of_contains`).
-/

namespace ApiChronicle

/-! ### Uses of a query -/

/-- A use occurs in a request: as the type of a parameter or of the IDs. -/
inductive Request.Uses (x : Request) : TypeUse → Prop
  | pathParameter {p} (h : p ∈ x.pathParameters.values) : Uses x p.type
  | queryParameter {p} (h : p ∈ x.queryParameters.values) : Uses x p.type
  | id {d} (h : x.details = some d) : Uses x d.idType

/-- A use occurs in a query at one version: in its request, or as its response. -/
inductive ResolvedQuery.Uses (x : ResolvedQuery) : TypeUse → Prop
  | request {t} (h : x.request.Uses t) : Uses x t
  | response : Uses x x.schema

/-- A use occurs in a query over time at a version. -/
inductive Query.Uses (q : Query) (v : Version) : TypeUse → Prop
  | request {t} (h : q.request.Uses t) : Uses q v t
  | response {t} (h : q.schema.at? v = some t) : Uses q v t

/-- The mentions of a query are those of its uses. -/
theorem ResolvedQuery.mem_mentions_iff {x : ResolvedQuery} {m : Mention} :
    m ∈ x.mentions ↔ ∃ t, x.Uses t ∧ m ∈ t.mentions := by
  unfold ResolvedQuery.mentions
  constructor
  · intro hm
    rcases List.mem_append.mp hm with hm | hm
    · obtain ⟨p, hp, hm⟩ := List.mem_flatMap.mp hm
      exact ⟨_, .request (.pathParameter hp), hm⟩
    rcases List.mem_append.mp hm with hm | hm
    · obtain ⟨p, hp, hm⟩ := List.mem_flatMap.mp hm
      exact ⟨_, .request (.queryParameter hp), hm⟩
    rcases List.mem_append.mp hm with hm | hm
    · cases hd : x.request.details with
      | none => simp [hd] at hm
      | some d => exact ⟨_, .request (.id hd), by simpa [hd] using hm⟩
    · exact ⟨_, .response, hm⟩
  · intro h
    obtain ⟨t, ht, hm⟩ := h
    cases ht with
    | request ht =>
        cases ht with
        | pathParameter hp => exact List.mem_append_left _ (List.mem_flatMap.mpr ⟨_, hp, hm⟩)
        | queryParameter hp =>
            refine List.mem_append_right _ (List.mem_append_left _ ?_)
            exact List.mem_flatMap.mpr ⟨_, hp, hm⟩
        | id hd =>
            refine List.mem_append_right _ (List.mem_append_right _ (List.mem_append_left _ ?_))
            simpa [hd] using hm
    | response =>
        exact List.mem_append_right _ (List.mem_append_right _ (List.mem_append_right _ hm))

namespace Query

variable {q : Query} {v : Version}

theorem at?_eq_some_iff {x : ResolvedQuery} :
    q.at? v = some x ↔
      q.window.contains v = true ∧ ∃ t, q.schema.at? v = some t ∧ x = ⟨q.request, t⟩ := by
  unfold at?
  split
  · next h =>
    rw [Option.map_eq_some_iff]
    constructor
    · intro hx
      obtain ⟨t, ht, rfl⟩ := hx
      exact ⟨h, t, ht, rfl⟩
    · intro hx
      obtain ⟨-, t, ht, rfl⟩ := hx
      exact ⟨t, ht, rfl⟩
  · next h => simp [h]

/-- Fixing the version keeps what the query uses there. -/
theorem uses_at? {x : ResolvedQuery} (h : q.at? v = some x) {t : TypeUse} :
    x.Uses t ↔ q.Uses v t := by
  obtain ⟨-, schema, hschema, rfl⟩ := at?_eq_some_iff.mp h
  constructor
  · intro ht
    cases ht with
    | request ht => exact .request ht
    | response => exact .response hschema
  · intro ht
    cases ht with
    | request ht => exact .request ht
    | response hs =>
        obtain rfl := Option.some.inj (hschema.symm.trans hs)
        exact .response

end Query

namespace Endpoint

variable {e : Endpoint} {r : Registry} {v : Version}

/-! ### Responses over time -/

/-- Sorted starts of which no two neighbours are equal increase strictly. -/
theorem pairwise_lt_of_repeatedSince? {l : List (Version × TypeUse)}
    (sorted : l.Pairwise fun x y => x.1 ≤ y.1) (h : repeatedSince? l = none) :
    l.Pairwise fun x y => x.1 < y.1 := by
  induction l with
  | nil => exact .nil
  | cons x rest ih =>
      obtain ⟨hx, hrest⟩ := List.pairwise_cons.mp sorted
      cases rest with
      | nil => exact List.pairwise_singleton _ _
      | cons y rest =>
          simp only [repeatedSince?] at h
          split at h
          · cases h
          · next hne =>
            have hlt : x.1 < y.1 := by
              have hle := hx y List.mem_cons_self
              have hrank : x.1.rank ≠ y.1.rank := fun heq => hne (Version.rank_inj.mp heq)
              rw [Version.le_iff_rank] at hle
              rw [Version.lt_iff_rank]
              omega
            have htail := ih hrest h
            refine List.pairwise_cons.mpr ⟨fun z hz => ?_, htail⟩
            rcases List.mem_cons.mp hz with rfl | hz
            · exact hlt
            · exact Nat.lt_trans hlt ((List.pairwise_cons.mp htail).1 z hz)

theorem sorted_schemas (e : Endpoint) :
    (e.schemas.mergeSort fun a b => a.1 ≤ b.1).Pairwise fun x y => x.1 ≤ y.1 := by
  have h : (e.schemas.mergeSort fun a b => a.1 ≤ b.1).Pairwise
      fun x y => decide (x.1 ≤ y.1) = true := by
    refine List.pairwise_mergeSort (fun a b c hab hbc => ?_) (fun a b => ?_) _
    · simp only [decide_eq_true_eq] at hab hbc ⊢
      exact Nat.le_trans hab hbc
    · simp only [Bool.or_eq_true, decide_eq_true_eq]
      exact Nat.le_total ..
  exact h.imp fun hle => of_decide_eq_true hle

/-- The responses are the endpoint's, one after the other, restricted to the window. -/
theorem schemaTimeline_eq_ok {window : Window} {t : Timeline TypeUse}
    (h : e.schemaTimeline window = .ok t) :
    ∃ l, ∃ whole : Timeline TypeUse, l.Perm e.schemas ∧ l.Pairwise (fun x y => x.1 < y.1) ∧
      whole.entries = Timeline.spans l ∧ whole.restrict window = .ok t := by
  unfold schemaTimeline at h
  simp only at h
  split at h
  · cases h
  · next hrepeated =>
    have hlt := pairwise_lt_of_repeatedSince? e.sorted_schemas hrepeated
    obtain ⟨draft, hdraft, hbuild⟩ := Except.bind_eq_ok_iff.mp h
    obtain ⟨whole, hwhole, hrestrict⟩ := Except.bind_eq_ok_iff.mp hbuild
    obtain rfl : (⟨Timeline.spans _⟩ : Timeline.Draft TypeUse) = draft :=
      Except.ok.inj ((Timeline.foldlM_add_eq_spans hlt).symm.trans hdraft)
    exact ⟨_, whole, List.mergeSort_perm .., hlt, Timeline.Draft.entries_of_build hwhole, hrestrict⟩

/-- There is a response at every version of the window. -/
theorem exists_response_of_contains {window : Window} {t : Timeline TypeUse}
    (h : e.schemaTimeline window = .ok t) (hv : window.contains v = true) :
    ∃ type, t.at? v = some type := by
  obtain ⟨l, whole, -, sorted, hwhole, hrestrict⟩ := schemaTimeline_eq_ok h
  obtain ⟨dated, -, hat⟩ := Timeline.exists_at?_restrict sorted hwhole hrestrict hv
  exact ⟨dated.2, hat⟩

/-- Every response is one of the endpoint's. -/
theorem mem_schemas_of_schemaTimeline {window : Window} {t : Timeline TypeUse}
    (h : e.schemaTimeline window = .ok t) {type : TypeUse}
    (htype : type ∈ t.entries.map Entry.value) : type ∈ e.schemas.map Prod.snd := by
  obtain ⟨l, whole, hperm, sorted, hwhole, hrestrict⟩ := schemaTimeline_eq_ok h
  obtain ⟨since, hmem⟩ := Timeline.mem_of_mem_values_restrict sorted hwhole hrestrict htype
  exact List.mem_map.mpr ⟨_, hperm.mem_iff.mp hmem, rfl⟩

/-! ### The base query -/

theorem baseQuery_eq_ok {base : Query} (h : e.baseQuery = .ok base) :
    base.request = e.request ∧ e.schemaTimeline base.window = .ok base.schema := by
  obtain ⟨window, -, hrest⟩ := Except.bind_eq_ok_iff.mp h
  obtain ⟨schema, hschema, hbase⟩ := Except.bind_eq_ok_iff.mp hrest
  obtain rfl := Except.pure_eq_ok_iff.mp hbase
  exact ⟨rfl, Except.mapError_eq_ok_iff.mp hschema⟩

theorem window_of_baseQuery {base : Query} (h : e.baseQuery = .ok base) :
    base.window = ⟨e.since, e.stop⟩ := by
  obtain ⟨window, hwindow, hrest⟩ := Except.bind_eq_ok_iff.mp h
  obtain ⟨schema, -, hbase⟩ := Except.bind_eq_ok_iff.mp hrest
  obtain rfl := Except.pure_eq_ok_iff.mp hbase
  exact Window.ofBounds_eq_ok (Except.mapError_eq_ok_iff.mp hwindow)

/-- A base query fails in its windows only. -/
theorem baseQuery_eq_error {error : DefinitionError} (h : e.baseQuery = .error error) :
    ∃ cause, error = .timeline cause := by
  rcases Except.bind_eq_error_iff.mp h with h | ⟨window, -, h⟩
  · obtain ⟨cause, -, rfl⟩ := Except.mapError_eq_error_iff.mp h
    exact ⟨cause, rfl⟩
  rcases Except.bind_eq_error_iff.mp h with h | ⟨schema, -, h⟩
  · obtain ⟨cause, -, rfl⟩ := Except.mapError_eq_error_iff.mp h
    exact ⟨cause, rfl⟩
  · cases h

/-- The base query uses nothing that its endpoint does not use. -/
theorem mem_types_of_baseQuery {base : Query} (h : e.baseQuery = .ok base) {t : TypeUse}
    (ht : base.Uses v t) : t ∈ e.types := by
  obtain ⟨hrequest, hschema⟩ := baseQuery_eq_ok h
  unfold types
  cases ht with
  | request ht =>
      rw [hrequest] at ht
      cases ht with
      | pathParameter hp =>
          have hmem := SortedMap.mem_of_mem_values_ofList hp
          exact List.mem_append_left _ (List.mem_append_left _ (List.mem_map_of_mem hmem))
      | queryParameter hp =>
          have hmem := SortedMap.mem_of_mem_values_ofList hp
          exact List.mem_append_left _ (List.mem_append_right _ (List.mem_map_of_mem hmem))
      | id hd => cases hd
  | response hs =>
      exact List.mem_append_right _
        (mem_schemas_of_schemaTimeline hschema (Timeline.mem_values_of_at? hs))

/-! ### IDs -/

theorem checkIdType_eq_ok {path key : String} {type type' : TypeUse}
    (h : checkIdType r path key type = .ok type') : type' = type := by
  unfold checkIdType at h
  split at h
  · split at h
    · exact (Except.ok.inj h).symm
    · cases h
  · split at h
    · split at h
      · exact (Except.ok.inj h).symm
      · cases h
    · cases h
  · cases h

/-- The properties that are found by serial name are members. -/
theorem uses_of_properties? {d : Declaration} {properties : SortedMap String (Dated Property)}
    (h : d.properties? = some properties) {p : Dated Property} (hp : p ∈ properties.values) :
    d.Uses p.member.type := by
  cases d with
  | record s =>
      obtain rfl := Option.some.inj h
      exact .property hp
  | conditional s =>
      obtain rfl := Option.some.inj h
      exact .shared hp
  | _ => cases h

/-- The type of IDs is the type of a member of a declared type. -/
theorem uses_of_idType {base : Query} {key : String} {type : TypeUse}
    (h : idType r base key = .ok type) :
    ∃ n history d, r.get? n = some history ∧ d ∈ history.declarations ∧ d.Uses type := by
  unfold idType at h
  simp only at h
  split at h
  · next n _ =>
    split at h
    · cases h
    · next history hget =>
      split at h
      · cases h
      · next properties hproperties =>
        split at h
        · cases h
        · next p hp =>
          obtain rfl := checkIdType_eq_ok h
          have hmem : p ∈ properties.values := SortedMap.mem_values_iff.mpr ⟨key, hp⟩
          refine ⟨n, history, _, hget, ?_, uses_of_properties? hproperties hmem⟩
          cases hclassic : history.at? .classic with
          | none => exact history.first_mem_declarations
          | some d => exact History.mem_declarations_of_at? hclassic
  · cases h

/-! ### The queries -/

/-- The queries of an index are made of the base query, one for each way to ask. -/
theorem queries_eq_ok_of_index {index : Index} (hindex : e.index = some index)
    {queries : List Query} (h : e.queries r = .ok queries) :
    ∃ base type, e.baseQuery = .ok base ∧ idType r base index.idKey = .ok type ∧
      queries = index.queries.map (indexQuery base type) := by
  obtain ⟨base, hbase, hindexed⟩ := Except.bind_eq_ok_iff.mp h
  rw [hindex] at hindexed
  obtain ⟨type, htype, hqueries⟩ := Except.bind_eq_ok_iff.mp hindexed
  exact ⟨base, type, hbase, htype, (Except.pure_eq_ok_iff.mp hqueries).symm⟩

/-- The queries are the base query, or one for each way to ask the index. -/
theorem queries_eq_ok {queries : List Query} (h : e.queries r = .ok queries) :
    ∃ base, e.baseQuery = .ok base ∧
      (queries = [base] ∨ ∃ index type, e.index = some index ∧
        idType r base index.idKey = .ok type ∧
        queries = index.queries.map (indexQuery base type)) := by
  cases hi : e.index with
  | none =>
      obtain ⟨base, hbase, hplain⟩ := Except.bind_eq_ok_iff.mp h
      rw [hi] at hplain
      exact ⟨base, hbase, Or.inl (Except.pure_eq_ok_iff.mp hplain).symm⟩
  | some index =>
      obtain ⟨base, type, hbase, htype, hqueries⟩ := queries_eq_ok_of_index hi h
      exact ⟨base, hbase, Or.inr ⟨index, type, rfl, htype, hqueries⟩⟩

/-- The parameters of an index query mention what the type of IDs mentions. -/
theorem mem_mentions_of_indexParameters {type : TypeUse} {query : IndexQuery} {p : QueryParameter}
    (hp : p ∈ indexParameters type query) {m : Mention} (hm : m ∈ p.type.mentions) :
    m ∈ type.mentions := by
  cases query with
  | ids => exact absurd hp List.not_mem_nil
  | byId =>
      obtain rfl := List.mem_singleton.mp hp
      exact hm
  | byIds _ =>
      obtain rfl := List.mem_singleton.mp hp
      exact hm
  | byPage =>
      rcases List.mem_cons.mp hp with rfl | hp
      · exact absurd hm List.not_mem_nil
      · obtain rfl := List.mem_singleton.mp hp
        exact absurd hm List.not_mem_nil

theorem mem_mentions_of_indexSchema {type element : TypeUse} {query : IndexQuery} {m : Mention}
    (hm : m ∈ (indexSchema type query element).mentions) :
    m ∈ type.mentions ∨ m ∈ element.mentions := by
  cases query with
  | ids => exact Or.inl hm
  | byId => exact Or.inr hm
  | byIds _ => exact Or.inr hm
  | byPage => exact Or.inr hm

/-- What a query mentions, its endpoint mentions or a declared type does. -/
theorem mem_mentions_of_queries {queries : List Query} (h : e.queries r = .ok queries) {q : Query}
    (hq : q ∈ queries) {t : TypeUse} (ht : q.Uses v t) {m : Mention} (hm : m ∈ t.mentions) :
    (∃ t ∈ e.types, m ∈ t.mentions) ∨
      ∃ n history d t, r.get? n = some history ∧ d ∈ history.declarations ∧ d.Uses t ∧
        m ∈ t.mentions := by
  obtain ⟨base, hbase, rfl | ⟨index, type, -, htype, rfl⟩⟩ := queries_eq_ok h
  · obtain rfl := List.mem_singleton.mp hq
    exact Or.inl ⟨t, mem_types_of_baseQuery hbase ht, hm⟩
  obtain ⟨query, -, rfl⟩ := List.mem_map.mp hq
  have hid : m ∈ type.mentions → ∃ n history d t, r.get? n = some history ∧
      d ∈ history.declarations ∧ d.Uses t ∧ m ∈ t.mentions := by
    intro hm
    obtain ⟨n, history, d, hget, hd, huses⟩ := uses_of_idType htype
    exact ⟨n, history, d, type, hget, hd, huses, hm⟩
  have hbaseUses : ∀ {t}, base.Uses v t → m ∈ t.mentions → ∃ t ∈ e.types, m ∈ t.mentions :=
    fun ht hm => ⟨_, mem_types_of_baseQuery hbase ht, hm⟩
  cases ht with
  | request ht =>
      cases ht with
      | pathParameter hp => exact Or.inl (hbaseUses (.request (.pathParameter hp)) hm)
      | queryParameter hp =>
          rcases SortedMap.mem_values_foldl_insert (g := id) hp with ⟨p', hnew, rfl⟩ | hold
          · exact Or.inr (hid (mem_mentions_of_indexParameters hnew hm))
          · exact Or.inl (hbaseUses (.request (.queryParameter hold)) hm)
      | id hd =>
          obtain rfl := Option.some.inj hd
          exact Or.inr (hid hm)
  | response hs =>
      have hmap := Timeline.at?_map (indexSchema type query) base.schema v
      obtain ⟨element, helement, rfl⟩ := Option.map_eq_some_iff.mp (hmap.symm.trans hs)
      rcases mem_mentions_of_indexSchema hm with hm | hm
      · exact Or.inr (hid hm)
      · exact Or.inl (hbaseUses (.response helement) hm)

/-- The queries of a well-kinded endpoint are well-kinded. -/
theorem wellKinded_of_queries (he : e.WellKinded) (hr : r.WellKinded) {queries : List Query}
    (h : e.queries r = .ok queries) {q : Query} (hq : q ∈ queries) {t : TypeUse}
    (ht : q.Uses v t) : t.WellKinded := by
  intro m hm
  rcases mem_mentions_of_queries h hq ht hm with ⟨t, ht, hm⟩ | ⟨n, history, d, t, hget, hd, ht, hm⟩
  · exact he t ht m hm
  · exact hr.of_get? hget hd t ht m hm

/-- A query has a response at every version of its window. -/
theorem exists_schema_of_contains {queries : List Query} (h : e.queries r = .ok queries)
    {q : Query} (hq : q ∈ queries) (hv : q.window.contains v = true) :
    ∃ t, q.schema.at? v = some t := by
  obtain ⟨base, hbase, hqueries⟩ := queries_eq_ok h
  have hcover : base.window.contains v = true → ∃ t, base.schema.at? v = some t :=
    exists_response_of_contains (baseQuery_eq_ok hbase).2
  rcases hqueries with rfl | ⟨index, type, -, -, rfl⟩
  · obtain rfl := List.mem_singleton.mp hq
    exact hcover hv
  · obtain ⟨query, -, rfl⟩ := List.mem_map.mp hq
    obtain ⟨element, helement⟩ := hcover hv
    exact ⟨_, (Timeline.at?_map ..).trans (congrArg (Option.map _) helement)⟩

end Endpoint

end ApiChronicle
