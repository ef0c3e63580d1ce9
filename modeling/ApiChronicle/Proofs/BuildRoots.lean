import ApiChronicle.Proofs.EndpointQueries

/-! # ApiChronicle.Proofs.BuildRoots

**Where the build of an API starts**, and how it ends.

`ApiDefinition.IsRoot` says which names a selection starts from: those that the
selected queries use at the version, and the auxiliary types that exist there. It
is said over the endpoints and their queries, without the list of mentions that the
build resolves; `mentioned_rootMentions` shows that the list carries just these
names. A query counts by its window alone: one that is inside its window also has a
response there, so the build loses none.
-/

namespace ApiChronicle

namespace ApiDefinition

variable {d : ApiDefinition} {s : Selection}

/-! ### Selected queries -/

/-- A query of a selected endpoint. -/
def Offers (d : ApiDefinition) (s : Selection) (q : Query) : Prop :=
  ∃ e ∈ d.endpoints, s.keeps e = true ∧
    ∃ queries, e.queries d.registry = .ok queries ∧ q ∈ queries

/-- Every selected name is the name of an endpoint. -/
def Knows (d : ApiDefinition) (s : Selection) : Prop :=
  ∀ names, s.endpoints = some names → ∀ name, names.contains name = true →
    ∃ e ∈ d.endpoints, e.name = name

theorem knows_of_no_names (d : ApiDefinition) {v : Version} {auxiliary : Bool} :
    d.Knows ⟨v, none, auxiliary⟩ := by
  intro names hnames
  cases hnames

/-- The selection names an endpoint that does not exist. -/
def Lacks (d : ApiDefinition) (s : Selection) (name : String) : Prop :=
  (∃ names, s.endpoints = some names ∧ names.contains name = true) ∧
    ∀ e ∈ d.endpoints, e.name ≠ name

theorem knows_iff : d.Knows s ↔ ∀ name, ¬d.Lacks s name := by
  constructor
  · intro h name hlacks
    obtain ⟨⟨names, hnames, hname⟩, hnone⟩ := hlacks
    obtain ⟨e, he, heq⟩ := h names hnames name hname
    exact hnone e he heq
  · intro h names hnames name hname
    by_contra hnone
    exact h name ⟨⟨names, hnames, hname⟩, fun e he heq => hnone ⟨e, he, heq⟩⟩

theorem mem_selected_names {name : String} :
    name ∈ (s.endpoints.map SortedMap.keys).getD [] ↔
      ∃ names, s.endpoints = some names ∧ names.contains name = true := by
  cases s.endpoints with
  | none => simp
  | some names => simp [SortedMap.mem_keys_iff]

theorem endpoint?_eq_none_iff {name : String} :
    d.endpoint? name = none ↔ ∀ e ∈ d.endpoints, e.name ≠ name := by
  simp [endpoint?]

theorem unknownEndpoint?_eq_none_iff : d.unknownEndpoint? s = none ↔ d.Knows s := by
  unfold unknownEndpoint?
  rw [List.find?_eq_none, knows_iff]
  simp only [mem_selected_names, Option.isNone_iff_eq_none, endpoint?_eq_none_iff, Lacks, not_and]

theorem selectedQueries_of_unknown {name : String} (h : d.unknownEndpoint? s = some name) :
    d.selectedQueries s = .error (.unknownEndpoint name) := by
  unfold selectedQueries
  rw [h]

theorem selectedQueries_of_knows (h : d.Knows s) :
    d.selectedQueries s = do
      let lists ← ((d.endpoints.filter s.keeps).mapM fun (e : Endpoint) =>
        e.queries d.registry).mapError ApiError.definition
      return lists.flatten.eraseDups := by
  unfold selectedQueries
  rw [unknownEndpoint?_eq_none_iff.mpr h]

/-- The queries are those of the selected endpoints, put together in order, each once. -/
theorem selectedQueries_eq_ok_iff {queries : List Query} :
    d.selectedQueries s = .ok queries ↔ d.Knows s ∧ ∃ lists,
      List.Forall₂ (fun e list => e.queries d.registry = .ok list)
        (d.endpoints.filter s.keeps) lists ∧ lists.flatten.eraseDups = queries := by
  cases hfound : d.unknownEndpoint? s with
  | none =>
      have hknows := unknownEndpoint?_eq_none_iff.mp hfound
      simp only [selectedQueries_of_knows hknows, Except.bind_eq_ok_iff,
        Except.mapError_eq_ok_iff, List.mapM_eq_ok_iff, Except.pure_eq_ok_iff, hknows, true_and]
  | some name =>
      have hunknown : ¬d.Knows s := by
        rw [← unknownEndpoint?_eq_none_iff, hfound]
        nofun
      rw [selectedQueries_of_unknown hfound]
      exact iff_of_false nofun fun h => hunknown h.1

/-- The queries are put together from those of every selected endpoint. -/
theorem selectedQueries_eq_ok {queries : List Query} (h : d.selectedQueries s = .ok queries) :
    ∃ lists : List (List Query), queries = lists.flatten.eraseDups ∧
      (∀ e ∈ d.endpoints, s.keeps e = true →
        ∃ list ∈ lists, e.queries d.registry = .ok list) ∧
      ∀ list ∈ lists, ∃ e ∈ d.endpoints, s.keeps e = true ∧ e.queries d.registry = .ok list := by
  obtain ⟨-, lists, hlists, hqueries⟩ := selectedQueries_eq_ok_iff.mp h
  refine ⟨lists, hqueries.symm, fun e he hkeeps => ?_, fun list hlist => ?_⟩
  · exact List.exists_mem_of_forall₂ hlists (List.mem_filter.mpr ⟨he, hkeeps⟩)
  · obtain ⟨e, he, hok⟩ := List.exists_mem_of_forall₂ hlists.flip hlist
    obtain ⟨he, hkeeps⟩ := List.mem_filter.mp he
    exact ⟨e, he, hkeeps, hok⟩

/-- The selected queries are those that the selected endpoints offer. -/
theorem mem_selectedQueries {queries : List Query} (h : d.selectedQueries s = .ok queries)
    {q : Query} : q ∈ queries ↔ d.Offers s q := by
  obtain ⟨lists, rfl, hsteps, hresults⟩ := selectedQueries_eq_ok h
  rw [List.mem_eraseDups, List.mem_flatten]
  constructor
  · intro hmem
    obtain ⟨list, hlist, hq⟩ := hmem
    obtain ⟨e, he, hkeeps, hok⟩ := hresults list hlist
    exact ⟨e, he, hkeeps, list, hok, hq⟩
  · intro hoffers
    obtain ⟨e, he, hkeeps, list, hok, hq⟩ := hoffers
    obtain ⟨list', hlist', hok'⟩ := hsteps e he hkeeps
    obtain rfl := Except.ok.inj (hok.symm.trans hok')
    exact ⟨list, hlist', hq⟩

/-- The queries are found if every selected name is known and every selected endpoint
can make its queries. -/
theorem exists_selectedQueries (hs : d.Knows s)
    (hqueries : ∀ e ∈ d.endpoints, s.keeps e = true →
      ∃ queries, e.queries d.registry = .ok queries) :
    ∃ queries, d.selectedQueries s = .ok queries := by
  have hmake : ∀ e ∈ d.endpoints.filter s.keeps, ∃ queries, e.queries d.registry = .ok queries := by
    intro e he
    obtain ⟨he, hkeeps⟩ := List.mem_filter.mp he
    exact hqueries e he hkeeps
  obtain ⟨lists, hlists⟩ := List.exists_mapM_eq_ok hmake
  exact ⟨_, selectedQueries_eq_ok_iff.mpr ⟨hs, lists, List.mapM_eq_ok_iff.mp hlists, rfl⟩⟩

theorem selectedQueries_eq_unknownEndpoint_iff {name : String} :
    d.selectedQueries s = .error (.unknownEndpoint name) ↔ d.unknownEndpoint? s = some name := by
  cases hfound : d.unknownEndpoint? s with
  | none =>
      refine iff_of_false (fun h => ?_) nofun
      rw [selectedQueries_of_knows (unknownEndpoint?_eq_none_iff.mp hfound)] at h
      rcases Except.bind_eq_error_iff.mp h with h | ⟨lists, -, h⟩
      · obtain ⟨cause, -, hcause⟩ := Except.mapError_eq_error_iff.mp h
        cases hcause
      · cases h
  | some found =>
      rw [selectedQueries_of_unknown hfound]
      simp

/-- With every name known, the first endpoint that cannot make its queries is the fault. -/
theorem selectedQueries_eq_error_iff (h : d.Knows s) {error : ApiError} :
    d.selectedQueries s = .error error ↔
      ∃ before e behind cause, d.endpoints.filter s.keeps = before ++ e :: behind ∧
        (∀ x ∈ before, ∃ queries, x.queries d.registry = .ok queries) ∧
        e.queries d.registry = .error cause ∧ error = .definition cause := by
  rw [selectedQueries_of_knows h, Except.bind_eq_error_iff, Except.mapError_eq_error_iff]
  constructor
  · intro hfails
    rcases hfails with ⟨cause, hcause, rfl⟩ | ⟨lists, -, hfails⟩
    · obtain ⟨before, e, behind, hsplit, hbefore, he⟩ := List.mapM_eq_error_iff.mp hcause
      exact ⟨before, e, behind, cause, hsplit, hbefore, he, rfl⟩
    · cases hfails
  · intro hfirst
    obtain ⟨before, e, behind, cause, hsplit, hbefore, he, rfl⟩ := hfirst
    exact Or.inl ⟨cause, List.mapM_eq_error_iff.mpr ⟨before, e, behind, hsplit, hbefore, he⟩, rfl⟩

/-- The queries are not found if a selected name is not known or a selected endpoint cannot
make its queries. -/
theorem selectedQueries_eq_error {error : ApiError} (h : d.selectedQueries s = .error error) :
    (∃ name, error = .unknownEndpoint name) ∨
      ∃ e ∈ d.endpoints, ∃ cause, e.queries d.registry = .error cause ∧
        error = .definition cause := by
  cases hfound : d.unknownEndpoint? s with
  | some name =>
      rw [selectedQueries_of_unknown hfound] at h
      exact Or.inl ⟨name, (Except.error.inj h).symm⟩
  | none =>
      have hknows := unknownEndpoint?_eq_none_iff.mp hfound
      obtain ⟨before, e, behind, cause, hsplit, -, hcause, rfl⟩ :=
        (selectedQueries_eq_error_iff hknows).mp h
      have he : e ∈ d.endpoints.filter s.keeps :=
        hsplit ▸ List.mem_append_right _ List.mem_cons_self
      exact Or.inr ⟨e, List.mem_of_mem_filter he, cause, hcause, rfl⟩

/-! ### Roots -/

/-- A name the selection starts from. -/
inductive IsRoot (d : ApiDefinition) (s : Selection) : QualifiedName → Prop
  /-- A selected query that exists at the version uses it. -/
  | query {q t n} (offered : d.Offers s q) (window : q.window.contains s.version = true)
      (uses : q.Uses s.version t) (names : t.Names n) : IsRoot d s n
  /-- It is the name of an auxiliary type that exists at the version. -/
  | auxiliary {n decl} (included : s.includeAuxiliary = true)
      (member : d.registry.auxiliary.contains n = true)
      (declared : d.registry.Declares s.version n decl) : IsRoot d s n

/-- The mentions that the build resolves. -/
def rootMentions (d : ApiDefinition) (s : Selection) (queries : List Query) : List Mention :=
  (queries.filterMap (·.at? s.version)).flatMap ResolvedQuery.mentions ++
    (if s.includeAuxiliary then d.auxiliaryAt s.version else []).map auxiliaryMention

theorem mem_auxiliaryAt {v : Version} {n : QualifiedName} :
    n ∈ d.auxiliaryAt v ↔
      d.registry.auxiliary.contains n = true ∧ ∃ decl, d.registry.Declares v n decl := by
  unfold auxiliaryAt Registry.Declares
  rw [List.mem_filter, SortedMap.mem_keys_iff, Option.isSome_iff_exists]
  simp only [Option.bind_eq_some_iff]

@[simp] theorem name_auxiliaryMention (n : QualifiedName) : (auxiliaryMention n).name = n := by
  unfold auxiliaryMention
  split <;> rfl

theorem wellKinded_auxiliaryMention (n : QualifiedName) : (auxiliaryMention n).WellKinded := by
  unfold auxiliaryMention
  split
  · next h => exact h
  · next h => exact Bool.eq_false_iff.mpr h

/-- What the build resolves comes from a query at the version, or is auxiliary. -/
theorem mem_rootMentions {queries : List Query} (h : d.selectedQueries s = .ok queries)
    {m : Mention} :
    m ∈ d.rootMentions s queries ↔
      (∃ q t, d.Offers s q ∧ q.window.contains s.version = true ∧ q.Uses s.version t ∧
        m ∈ t.mentions) ∨
      (s.includeAuxiliary = true ∧ ∃ n ∈ d.auxiliaryAt s.version, auxiliaryMention n = m) := by
  unfold rootMentions
  rw [List.mem_append]
  refine or_congr ?_ ?_
  · constructor
    · intro hm
      obtain ⟨x, hx, hm⟩ := List.mem_flatMap.mp hm
      obtain ⟨q, hq, hat⟩ := List.mem_filterMap.mp hx
      obtain ⟨t, ht, hm⟩ := ResolvedQuery.mem_mentions_iff.mp hm
      exact ⟨q, t, (mem_selectedQueries h).mp hq, (Query.at?_eq_some_iff.mp hat).1,
        (Query.uses_at? hat).mp ht, hm⟩
    · intro hused
      obtain ⟨q, t, hoffers, hwindow, ht, hm⟩ := hused
      obtain ⟨e, -, -, list, hlist, hq⟩ := id hoffers
      obtain ⟨schema, hschema⟩ := Endpoint.exists_schema_of_contains hlist hq hwindow
      have hat : q.at? s.version = some ⟨q.request, schema⟩ :=
        Query.at?_eq_some_iff.mpr ⟨hwindow, schema, hschema, rfl⟩
      refine List.mem_flatMap.mpr ⟨_, List.mem_filterMap.mpr
        ⟨q, (mem_selectedQueries h).mpr hoffers, hat⟩, ?_⟩
      exact ResolvedQuery.mem_mentions_iff.mpr ⟨t, (Query.uses_at? hat).mpr ht, hm⟩
  · cases s.includeAuxiliary <;> simp

/-- The resolved mentions carry the names of the roots. -/
theorem mentioned_rootMentions {queries : List Query} (h : d.selectedQueries s = .ok queries) :
    Registry.mentioned (d.rootMentions s queries) = {n | d.IsRoot s n} := by
  ext n
  constructor
  · intro hn
    obtain ⟨m, hm, rfl⟩ := hn
    rcases (mem_rootMentions h).mp hm with
      ⟨q, t, hoffers, hwindow, ht, hm⟩ | ⟨hincluded, n, hn, rfl⟩
    · exact .query hoffers hwindow ht (TypeUse.names_iff_mention.mpr ⟨m, hm, rfl⟩)
    · obtain ⟨hmember, decl, hdecl⟩ := mem_auxiliaryAt.mp hn
      rw [name_auxiliaryMention]
      exact .auxiliary hincluded hmember hdecl
  · intro hroot
    cases hroot with
    | query hoffers hwindow ht hn =>
        obtain ⟨m, hm, rfl⟩ := TypeUse.names_iff_mention.mp hn
        exact ⟨m, (mem_rootMentions h).mpr (Or.inl ⟨_, _, hoffers, hwindow, ht, hm⟩), rfl⟩
    | auxiliary hincluded hmember hdecl =>
        refine ⟨auxiliaryMention n, (mem_rootMentions h).mpr (Or.inr ⟨hincluded, n, ?_, rfl⟩),
          name_auxiliaryMention n⟩
        exact mem_auxiliaryAt.mpr ⟨hmember, _, hdecl⟩

/-- In a well-kinded definition every root is mentioned as what it is. -/
theorem wellKinded_rootMentions (hd : d.WellKinded) {queries : List Query}
    (h : d.selectedQueries s = .ok queries) :
    ∀ m ∈ d.rootMentions s queries, m.WellKinded := by
  intro m hm
  rcases (mem_rootMentions h).mp hm with ⟨q, t, hoffers, -, ht, hm⟩ | ⟨-, n, -, rfl⟩
  · obtain ⟨e, he, -, list, hlist, hq⟩ := hoffers
    exact Endpoint.wellKinded_of_queries (hd.endpoints e he) hd.registry hlist hq ht m hm
  · exact wellKinded_auxiliaryMention n

/-! ### The build -/

/-- A name that the selected part of the API leads to. -/
def Reachable (d : ApiDefinition) (s : Selection) (n : QualifiedName) : Prop :=
  d.registry.Reachable s.version {n | d.IsRoot s n} n

/-- The walk of a build. -/
def outcome (d : ApiDefinition) (s : Selection) (queries : List Query) : Outcome :=
  d.registry.resolveMentions s.version (d.rootMentions s queries) .empty

theorem outcome_resolves (d : ApiDefinition) (s : Selection) (queries : List Query) :
    d.registry.Resolves s.version (d.rootMentions s queries) .empty (d.outcome s queries) :=
  d.registry.resolveMentions_resolves ..

/-- With its queries at hand, a build ends as its walk does. -/
theorem build_eq {queries : List Query} (h : d.selectedQueries s = .ok queries) :
    d.build s = match (d.outcome s queries).result with
      | .error cause => .error (.resolve cause)
      | .ok () => .ok ⟨s.version, d.languages, queries.filterMap (·.at? s.version),
          (d.outcome s queries).pass.types⟩ := by
  unfold build
  rw [h]
  rfl

/-- A successful build shows the queries that exist at the version and the types that
its walk has collected. -/
theorem build_eq_ok {api : Api} (h : d.build s = .ok api) :
    ∃ queries, d.selectedQueries s = .ok queries ∧ (d.outcome s queries).result = .ok () ∧
      api = ⟨s.version, d.languages, queries.filterMap (·.at? s.version),
        (d.outcome s queries).pass.types⟩ := by
  obtain ⟨queries, hqueries, -⟩ := Except.bind_eq_ok_iff.mp h
  rw [build_eq hqueries] at h
  refine ⟨queries, hqueries, ?_⟩
  cases hresult : (d.outcome s queries).result with
  | error e =>
      rw [hresult] at h
      cases h
  | ok u =>
      rw [hresult] at h
      exact ⟨rfl, (Except.ok.inj h).symm⟩

/-- The selected endpoints of a built API can make their queries. -/
theorem exists_queries_of_build {api : Api} (h : d.build s = .ok api) :
    ∀ e ∈ d.endpoints, s.keeps e = true → ∃ queries, e.queries d.registry = .ok queries := by
  intro e he hkeeps
  obtain ⟨queries, hqueries, -⟩ := build_eq_ok h
  obtain ⟨lists, -, hsteps, -⟩ := selectedQueries_eq_ok hqueries
  obtain ⟨list, -, hok⟩ := hsteps e he hkeeps
  exact ⟨list, hok⟩

theorem exists_build_iff {queries : List Query} (h : d.selectedQueries s = .ok queries) :
    (∃ api, d.build s = .ok api) ↔ (d.outcome s queries).result = .ok () := by
  rw [build_eq h]
  cases (d.outcome s queries).result with
  | error e => simp
  | ok u => simp

/-- A build whose queries cannot be made fails as they do. -/
theorem build_eq_of_selectedQueries_eq_error {error : ApiError}
    (h : d.selectedQueries s = .error error) : d.build s = .error error := by
  unfold build
  rw [h]
  rfl

/-- A build whose queries can be made fails with the fault of its walk. -/
theorem build_eq_error {queries : List Query} (h : d.selectedQueries s = .ok queries)
    {error : ApiError} (herror : d.build s = .error error) :
    ∃ e, (d.outcome s queries).result = .error e ∧ error = .resolve e := by
  rw [build_eq h] at herror
  cases hresult : (d.outcome s queries).result with
  | error e =>
      rw [hresult] at herror
      exact ⟨e, rfl, (Except.error.inj herror).symm⟩
  | ok u =>
      rw [hresult] at herror
      cases herror

end ApiDefinition

/-! ### A tree of nodes -/

namespace NodeTree

def node : QualifiedName := .declaration [] ⟨["node"]⟩

def nodeId : QualifiedName := .alias ⟨["node", "id"]⟩

def orphan : QualifiedName := .declaration [] ⟨["orphan"]⟩

/-- A property of every version, named like its key. -/
def property (key : String) (type : TypeUse) : Dated Property :=
  .always
    { name := ⟨[key]⟩
      type := type
      serialName := key
      description := ""
      optionality := .required
      isDeprecated := false
      isInline := false
      isLenient := false
      isLocalized := false }

/-- A node has an ID and more nodes below it. -/
def nodeShape : Declaration :=
  .record
    { name := node
      properties := .ofList
        [("id", property "id" (.alias nodeId)),
         ("children", property "children" (.arrayOf (.declaration node)))]
      description := "" }

/-- An API over a cycle of references, and with a type that nothing leads to. -/
def definition : ApiDefinition where
  registry :=
    { types := .ofList
        [(node, .constant nodeShape),
         (nodeId, .constant (.alias ⟨nodeId, .integerId, ""⟩)),
         (orphan, .constant (.record ⟨orphan, .empty, ""⟩))]
      auxiliary := .ofList [node] }
  endpoints := [{ Endpoint.make "Nodes" "/nodes" with schemas := [(.classic, .declaration node)] }]
  languages := [.english]

/-- The same API without the type of the IDs. -/
def withoutIds : ApiDefinition :=
  { definition with registry := ⟨.ofList [(node, .constant nodeShape)], .empty⟩ }

theorem exists_build : ∃ api, definition.build ⟨.classic, none, true⟩ = .ok api :=
  Except.isOk_iff_exists.mp (by decide +kernel)

end NodeTree

end ApiChronicle
