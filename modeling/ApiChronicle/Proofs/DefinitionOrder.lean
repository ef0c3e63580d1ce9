import ApiChronicle.Proofs.CatalogueOrder

/-! # ApiChronicle.Proofs.DefinitionOrder

**Catalogues in another order** describe the same API.

Besides the types, which are declared alike in any order, a catalogue lists the parameters of
its endpoints by key. They end up in maps, where the order cannot be seen any more as long as
no key is repeated (`Endpoint.queries_of_reordered`). A catalogue that has been read repeats
none, because a key that is written again replaces its first entry
(`distinctParameters_of_ofText?`). So what a catalogue describes does not depend on the order
in which it is written (`definition_ignores_order`).
-/

namespace ApiChronicle

/-! ### Endpoints -/

/-- The same endpoint with its parameters in another order. -/
structure Endpoint.Reordered (e e' : Endpoint) : Prop where
  path : e.pathParameters.Perm e'.pathParameters
  query : e.queryParameters.Perm e'.queryParameters
  other : e' = { e with
    pathParameters := e'.pathParameters
    queryParameters := e'.queryParameters }

/-- No two parameters of one kind have the same key. -/
def Endpoint.DistinctParameters (e : Endpoint) : Prop :=
  (e.pathParameters.map PathParameter.key).Nodup ∧
    (e.queryParameters.map QueryParameter.key).Nodup

theorem Endpoint.request_of_reordered {e e' : Endpoint} (h : e.Reordered e')
    (hdistinct : e.DistinctParameters) : e'.request = e.request := by
  have hpath : SortedMap.ofList (e.pathParameters.map fun p => (p.key, p)) =
      SortedMap.ofList (e'.pathParameters.map fun p => (p.key, p)) :=
    SortedMap.ofList_of_perm (h.path.map _) (by simpa [Function.comp_def] using hdistinct.1)
  have hquery : SortedMap.ofList (e.queryParameters.map fun p => (p.key, p)) =
      SortedMap.ofList (e'.queryParameters.map fun p => (p.key, p)) :=
    SortedMap.ofList_of_perm (h.query.map _) (by simpa [Function.comp_def] using hdistinct.2)
  rw [h.other]
  simp only [request, hpath, hquery]

/-- An endpoint offers the same queries with its parameters in another order. -/
theorem Endpoint.queries_of_reordered {e e' : Endpoint} (h : e.Reordered e')
    (hdistinct : e.DistinctParameters) (r : Registry) : e'.queries r = e.queries r := by
  have hrequest := request_of_reordered h hdistinct
  have hbase : e'.baseQuery = e.baseQuery := by
    rw [baseQuery, baseQuery, hrequest, h.other]
    rfl
  have hindex : e'.index = e.index := by rw [h.other]
  rw [queries, queries, hbase, hindex]

namespace Catalogue

variable {refs refs' : References} {c c' : Catalogue}

/-- No two parameters of one kind have the same key. -/
def EndpointEntry.DistinctParameters (e : EndpointEntry) : Prop :=
  (e.pathParameters.map (·.1)).Nodup ∧ (e.queryParameters.map (·.1)).Nodup

theorem EndpointEntry.DistinctParameters.of_reordered {e e' : EndpointEntry}
    (h : e.Reordered e') (he : e.DistinctParameters) : e'.DistinctParameters :=
  ⟨(h.path.map _).nodup_iff.mp he.1, (h.query.map _).nodup_iff.mp he.2⟩

/-- Parameters have the keys that they are listed under. -/
theorem keys_of_mapM {ε α : Type} {make : String × ε → Except DefinitionError α}
    {key : α → String} (hmake : ∀ p x, make p = .ok x → p.1 = key x) {l : Listing ε} {xs : List α}
    (h : l.mapM make = .ok xs) : l.map (·.1) = xs.map key :=
  List.map_eq_map_of_forall₂ ((List.mapM_eq_ok_iff.mp h).imp hmake)

theorem EndpointEntry.distinctParameters_of_endpoint {e : EndpointEntry} {x : Endpoint}
    (he : e.DistinctParameters) (hx : e.endpoint refs = .ok x) : x.DistinctParameters := by
  obtain ⟨paths, hpaths, hx⟩ := Except.bind_eq_ok_iff.mp hx
  obtain ⟨queries, hqueries, hx⟩ := Except.bind_eq_ok_iff.mp hx
  obtain ⟨schemas, -, hx⟩ := Except.bind_eq_ok_iff.mp hx
  obtain rfl := Except.pure_eq_ok_iff.mp hx
  constructor
  · refine keys_of_mapM (fun p x hx => ?_) hpaths ▸ he.1
    obtain ⟨t, -, hx⟩ := Except.bind_eq_ok_iff.mp hx
    exact Except.pure_eq_ok_iff.mp hx ▸ rfl
  · refine keys_of_mapM (fun p x hx => ?_) hqueries ▸ he.2
    obtain ⟨t, -, hx⟩ := Except.bind_eq_ok_iff.mp hx
    exact Except.pure_eq_ok_iff.mp hx ▸ rfl

/-- An endpoint is the same with its parameters in another order. -/
theorem EndpointEntry.endpoint_of_reordered {e e' : EndpointEntry} (h : e.Reordered e')
    {x : Endpoint} (hx : e.endpoint refs = .ok x) :
    ∃ x', e'.endpoint refs = .ok x' ∧ x.Reordered x' := by
  obtain ⟨hpath, hquery, hother⟩ := h
  generalize e'.pathParameters = path' at hpath hother
  generalize e'.queryParameters = query' at hquery hother
  subst hother
  obtain ⟨paths, hpaths, hx⟩ := Except.bind_eq_ok_iff.mp hx
  obtain ⟨queries, hqueries, hx⟩ := Except.bind_eq_ok_iff.mp hx
  obtain ⟨schemas, hschemas, hx⟩ := Except.bind_eq_ok_iff.mp hx
  obtain rfl := Except.pure_eq_ok_iff.mp hx
  obtain ⟨paths', hpaths', hpermPaths⟩ := List.mapM_of_perm hpath hpaths
  obtain ⟨queries', hqueries', hpermQueries⟩ := List.mapM_of_perm hquery hqueries
  exact ⟨_, Except.bind_eq_ok_iff.mpr ⟨paths', hpaths', Except.bind_eq_ok_iff.mpr ⟨queries',
    hqueries', Except.bind_eq_ok_iff.mpr ⟨schemas, hschemas, rfl⟩⟩⟩, hpermPaths, hpermQueries, rfl⟩

/-- Endpoints are the same one after the other, each with its parameters in another order. -/
theorem endpoints_of_reordered (hkeeps : refs.Keeps refs' []) {es es' : List EndpointEntry}
    (h : List.Forall₂ EndpointEntry.Reordered es es')
    (hdistinct : ∀ e ∈ es, e.DistinctParameters) {xs : List Endpoint}
    (hxs : es.mapM (EndpointEntry.endpoint refs) = .ok xs) :
    ∃ xs', es'.mapM (EndpointEntry.endpoint refs') = .ok xs' ∧
      List.Forall₂ (fun x x' => x.Reordered x' ∧ x.DistinctParameters) xs xs' := by
  simp only [List.mapM_eq_ok_iff] at hxs ⊢
  induction h generalizing xs with
  | nil =>
      cases hxs
      exact ⟨[], .nil, .nil⟩
  | cons he _ ih =>
      cases hxs with
      | cons hx hxs =>
          obtain ⟨hdistinctFirst, hdistinctRest⟩ := List.forall_mem_cons.mp hdistinct
          obtain ⟨xs', hxs', hpairs⟩ := ih hdistinctRest hxs
          obtain ⟨x', hx', hreordered⟩ := EndpointEntry.endpoint_of_reordered he hx
          have hkept := EndpointEntry.endpoint_entails hkeeps _ _ hx'
          have hdistinctX := EndpointEntry.distinctParameters_of_endpoint hdistinctFirst hx
          exact ⟨x' :: xs', .cons hkept hxs', .cons ⟨hreordered, hdistinctX⟩ hpairs⟩

/-! ### Definitions -/

/-- No endpoint has two parameters of one kind with the same key. -/
def DistinctParameters (c : Catalogue) : Prop := ∀ e ∈ c.endpoints, e.DistinctParameters

theorem DistinctParameters.of_reordered (h : c.Reordered c') (hc : c.DistinctParameters) :
    c'.DistinctParameters := by
  intro e' he'
  obtain ⟨e, he, hreordered⟩ := List.exists_mem_of_forall₂ h.endpoints.flip he'
  exact (hc e he).of_reordered hreordered

/-- A catalogue without repeated parameters describes the same API in another order. -/
theorem definition_of_reordered (h : c.Reordered c') (hdistinct : c.DistinctParameters)
    {d : ApiDefinition} (hd : c.definition = .ok d) :
    ∃ d', c'.definition = .ok d' ∧ d.registry = d'.registry ∧ d.languages = d'.languages ∧
      List.Forall₂ (fun x x' => x.Reordered x' ∧ x.DistinctParameters)
        d.endpoints d'.endpoints := by
  obtain ⟨r, hr, hauxiliary, hendpoints, hlanguages⟩ := definition_eq_ok_iff.mp hd
  have hr' := declarations_of_reordered h r hr
  have hmark : markAuxiliary (.ofCatalogue c) = markAuxiliary (.ofCatalogue c') := by
    funext reference r
    rw [markAuxiliary, markAuxiliary, named_of_reordered h]
  rw [hmark, h.auxiliary] at hauxiliary
  obtain ⟨endpoints, hendpoints', hpairs⟩ :=
    endpoints_of_reordered (keeps_of_reordered h []) h.endpoints hdistinct hendpoints
  rw [h.languages] at hlanguages
  exact ⟨⟨d.registry, endpoints, d.languages⟩, definition_eq_ok_iff.mpr
    ⟨r, hr', hauxiliary, hendpoints', hlanguages⟩, rfl, rfl, hpairs⟩

end Catalogue

/-! ### Catalogues that have been read -/

namespace Listing

variable {α : Type} {name : String} {value : α} {l : Listing α}

theorem map_fst_set_of_mem (h : name ∈ l.map Prod.fst) :
    (set name value l).map Prod.fst = l.map Prod.fst := by
  induction l with
  | nil => cases h
  | cons e rest ih =>
      rw [set]
      split
      · next hname => rw [List.map_cons, List.map_cons, ← hname]
      · next hname =>
        have hrest := (List.mem_cons.mp h).resolve_left fun heq => hname heq.symm
        rw [List.map_cons, List.map_cons, ih hrest]

/-- Writing an entry repeats no name. -/
theorem nodup_set (h : (l.map Prod.fst).Nodup) : ((set name value l).map Prod.fst).Nodup := by
  by_cases hname : name ∈ l.map Prod.fst
  · rwa [map_fst_set_of_mem hname]
  · rw [set_of_not_mem hname, List.map_append, List.map_singleton, ← List.concat_eq_append]
    exact (List.nodup_concat ..).mpr ⟨hname, h⟩

theorem nodup_ofEntries (entries : List (String × α)) :
    ((ofEntries entries).map Prod.fst).Nodup := by
  suffices hrun : ∀ l : Listing α, (l.map Prod.fst).Nodup →
      ((entries.foldl (fun listing e => set e.1 e.2 listing) l).map Prod.fst).Nodup from
    hrun [] List.nodup_nil
  induction entries with
  | nil => exact fun _ h => h
  | cons e rest ih => exact fun l h => ih _ (nodup_set h)

end Listing

namespace Json.Tree

variable {α : Type}

/-- Things that were read by name have different names. -/
theorem nodup_of_listing? {value : Tree → Option α} {t : Tree} {l : Listing α}
    (h : t.listing? value = some l) : (l.map Prod.fst).Nodup := by
  cases t with
  | object members =>
      obtain ⟨entries, -, h⟩ := Option.bind_eq_some_iff.mp h
      obtain rfl := Option.some.inj h
      exact Listing.nodup_ofEntries entries
  | _ => cases h

theorem Fields.nodup_of_optional? {fields : Fields} {name : String} {value : Tree → Option α}
    {l : Listing α} (h : fields.optional? name [] (Tree.listing? value) = some l) :
    (l.map Prod.fst).Nodup := by
  unfold optional? at h
  split at h
  · obtain rfl := Option.some.inj h
    exact List.nodup_nil
  · exact nodup_of_listing? h

/-- The things of a list were read one by one. -/
theorem exists_of_mem_list? {element : Tree → Option α} {t : Tree} {l : List α}
    (h : t.list? element = some l) {x : α} (hx : x ∈ l) : ∃ t', element t' = some x := by
  cases t with
  | array elements =>
      rw [list?] at h
      induction elements generalizing l with
      | nil =>
          obtain rfl := Option.some.inj h
          cases hx
      | cons t rest ih =>
          rw [List.mapM_cons] at h
          obtain ⟨first, hfirst, h⟩ := Option.bind_eq_some_iff.mp h
          obtain ⟨others, hothers, h⟩ := Option.bind_eq_some_iff.mp h
          obtain rfl := Option.some.inj h
          rcases List.mem_cons.mp hx with rfl | hx
          · exact ⟨t, hfirst⟩
          · exact ih hx hothers
  | _ => cases h

end Json.Tree

namespace Catalogue

open Json (Tree)

variable {c c' : Catalogue} {d d' : ApiDefinition}

theorem EndpointEntry.distinctParameters_of_ofTree? {t : Tree} {e : EndpointEntry}
    (h : EndpointEntry.ofTree? t = some e) : e.DistinctParameters := by
  -- the fields are read in order, and the parameters after nine other steps
  iterate 9 obtain ⟨_, -, h⟩ := Option.bind_eq_some_iff.mp h
  obtain ⟨paths, hpaths, h⟩ := Option.bind_eq_some_iff.mp h
  obtain ⟨queries, hqueries, h⟩ := Option.bind_eq_some_iff.mp h
  iterate 3 obtain ⟨_, -, h⟩ := Option.bind_eq_some_iff.mp h
  obtain rfl := Option.some.inj h
  exact ⟨Tree.Fields.nodup_of_optional? hpaths, Tree.Fields.nodup_of_optional? hqueries⟩

/-- In a catalogue that has been read no endpoint repeats the key of a parameter. -/
theorem distinctParameters_of_ofText? {text : String} (h : ofText? text = some c) :
    c.DistinctParameters := by
  obtain ⟨t, -, h⟩ := Option.bind_eq_some_iff.mp h
  iterate 4 obtain ⟨_, -, h⟩ := Option.bind_eq_some_iff.mp h
  obtain ⟨endpoints, hendpoints, h⟩ := Option.bind_eq_some_iff.mp h
  obtain ⟨_, -, h⟩ := Option.bind_eq_some_iff.mp h
  obtain rfl := Option.some.inj h
  intro e he
  unfold Tree.Fields.optional? at hendpoints
  split at hendpoints
  · obtain rfl := Option.some.inj hendpoints
    cases he
  · obtain ⟨t', ht'⟩ := Tree.exists_of_mem_list? hendpoints he
    exact EndpointEntry.distinctParameters_of_ofTree? ht'

/-- **What a catalogue describes does not depend on the order in which it is written.** A
catalogue that has been read can be loaded exactly if it can be loaded in another order. Then
the types, the auxiliary ones among them and the languages are the same; the endpoints are the
same one after the other, apart from the order of their parameters, and offer the same queries
or fail to in the same way. -/
theorem definition_ignores_order {text : String} (hread : ofText? text = some c)
    (h : c.Reordered c') :
    ((∃ d, c.definition = .ok d) ↔ ∃ d', c'.definition = .ok d') ∧
    ∀ d d', c.definition = .ok d → c'.definition = .ok d' →
      d.registry = d'.registry ∧ d.languages = d'.languages ∧
      List.Forall₂ Endpoint.Reordered d.endpoints d'.endpoints ∧
      d.endpoints.map (·.queries d.registry) = d'.endpoints.map (·.queries d'.registry) := by
  have hdistinct := distinctParameters_of_ofText? hread
  refine ⟨⟨fun hd => ?_, fun hd' => ?_⟩, fun d d' hd hd' => ?_⟩
  · obtain ⟨d, hd⟩ := hd
    obtain ⟨d', hd', -⟩ := definition_of_reordered h hdistinct hd
    exact ⟨d', hd'⟩
  · obtain ⟨d', hd'⟩ := hd'
    obtain ⟨d, hd, -⟩ := definition_of_reordered h.symm (hdistinct.of_reordered h) hd'
    exact ⟨d, hd⟩
  · obtain ⟨d'', hd'', hregistry, hlanguages, hpairs⟩ := definition_of_reordered h hdistinct hd
    obtain rfl := Except.ok.inj (hd'.symm.trans hd'')
    have hqueries := hpairs.imp fun x x' hx =>
      (Endpoint.queries_of_reordered hx.1 hx.2 d.registry).symm
    refine ⟨hregistry, hlanguages, hpairs.imp fun _ _ hx => hx.1, ?_⟩
    rw [← hregistry]
    exact List.map_eq_map_of_forall₂ hqueries

/-- The catalogue with its aliases, its types and the parameters of its endpoints listed
backwards. -/
def backwards (c : Catalogue) : Catalogue :=
  { c with
    aliases := c.aliases.reverse
    types := c.types.reverse
    endpoints := c.endpoints.map fun e => { e with
      pathParameters := e.pathParameters.reverse
      queryParameters := e.queryParameters.reverse } }

theorem reordered_backwards (c : Catalogue) : c.Reordered c.backwards where
  languages := rfl
  aliases := (List.reverse_perm _).symm
  types := .of_perm (List.reverse_perm _).symm
  endpoints := List.forall₂_map_right_iff.mpr (List.forall₂_same.mpr fun _ _ =>
    ⟨(List.reverse_perm _).symm, (List.reverse_perm _).symm, rfl⟩)
  auxiliary := rfl

/-- Books and their authors, with an endpoint of two parameters. -/
def libraryText : String :=
  "\x7b\"types\":\x7b\"Author\":[\"record\"],\"Book\":[\"record\"]\x7d," ++
  "\"endpoints\":[\x7b\"name\":\"Books\",\"path\":\"/books\",\"schema\":\"Book\"," ++
  "\"query_parameters\":\x7b\"isbn\":[\"string\"],\"page\":[\"integer\"]\x7d\x7d]\x7d"

theorem definition_ignores_order_library :
    ∃ c d d', ofText? libraryText = some c ∧ c.Reordered c.backwards ∧
      c.backwards.types.map (·.1) ≠ c.types.map (·.1) ∧
      c.definition = .ok d ∧ c.backwards.definition = .ok d' ∧ d.registry = d'.registry ∧
      d.endpoints.map (·.queries d.registry) = d'.endpoints.map (·.queries d'.registry) := by
  have hlibrary : (ofText? libraryText).any (fun c => c.definition.isOk &&
      decide (c.backwards.types.map (·.1) ≠ c.types.map (·.1))) = true := by decide +kernel
  cases hread : ofText? libraryText with
  | none =>
      rw [hread] at hlibrary
      cases hlibrary
  | some c =>
      rw [hread, Option.any_some, Bool.and_eq_true] at hlibrary
      obtain ⟨d, hd⟩ := Except.isOk_iff_exists.mp hlibrary.1
      have horder := definition_ignores_order hread (reordered_backwards c)
      obtain ⟨d', hd'⟩ := horder.1.mp ⟨d, hd⟩
      obtain ⟨hregistry, -, -, hqueries⟩ := horder.2 d d' hd hd'
      exact ⟨c, d, d', rfl, reordered_backwards c, of_decide_eq_true hlibrary.2, hd, hd', hregistry,
        hqueries⟩

end Catalogue

end ApiChronicle
