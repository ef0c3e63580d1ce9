import ApiChronicle.Proofs.BuildSuccess

/-! # ApiChronicle.Proofs.VersionIndependence

**What a build owes to its version.**

The version goes through every step of a build: it is looked up with every name, marked
with every name, and decides which queries exist. It matters only through what carries
dates. Two versions are *alike* for a selection if every type has the same declaration at
both, and every selected query exists at both or at neither and answers alike. Builds at
alike versions end alike (`ApiDefinition.build_of_alike`).

The proof runs the two resolutions side by side. They are *in step* when they have met the
same names, each at its own version, and have reported the same types (`Pass.InStep`).
Every move of the resolver keeps them in step (`Registry.resolveAlias_inStep`,
`Registry.resolveWithin_inStep`), through cycles as well, because a name is marked in the
one run exactly if it is marked in the other.
-/

namespace ApiChronicle

variable {v w : Version}

/-! ### Faults at another version -/

/-- The fault with another version, if it tells of one at which a type does not exist. -/
def ResolveError.movedTo (w : Version) : ResolveError → ResolveError
  | .missing name => .missing name
  | .unavailable name _ => .unavailable name w
  | .notAlias name actual => .notAlias name actual

/-- The fault with another version, if it tells of one at which a type does not exist. -/
def ApiError.movedTo (w : Version) : ApiError → ApiError
  | .definition cause => .definition cause
  | .resolve cause => .resolve (cause.movedTo w)
  | .unknownEndpoint name => .unknownEndpoint name

/-! ### Runs side by side -/

/-- Two passes have met the same names, one at `v` and the other at `w`, and have reported
the same types. -/
structure Pass.InStep (v w : Version) (p p' : Pass) : Prop where
  marks : ∀ n, (n, v) ∈ p.marks ↔ (n, w) ∈ p'.marks
  reports : p'.reports = p.reports

namespace Pass.InStep

variable {p p' : Pass}

theorem empty (v w : Version) : InStep v w .empty .empty :=
  ⟨fun _ => by simp [Pass.empty], rfl⟩

theorem mark (h : InStep v w p p') (n : QualifiedName) :
    InStep v w (p.mark n v) (p'.mark n w) := by
  refine ⟨fun n' => ?_, h.reports⟩
  rw [mem_marks_mark, mem_marks_mark, h.marks]
  simp

theorem report (h : InStep v w p p') (rep : Report) :
    InStep v w (p.report rep) (p'.report rep) := by
  refine ⟨h.marks, ?_⟩
  show p'.reports ++ [rep] = p.reports ++ [rep]
  rw [h.reports]

/-- What is collected depends on the reports alone. -/
theorem types (h : InStep v w p p') : p'.types = p.types := by
  unfold Pass.types Pass.aliases Pass.declarations
  rw [h.reports]

end Pass.InStep

/-- Two resolutions have ended alike, one at `v` and the other at `w`. -/
structure Outcome.InStep (v w : Version) (o o' : Outcome) : Prop where
  result : o'.result = o.result.mapError (ResolveError.movedTo w)
  pass : o.pass.InStep v w o'.pass

namespace Outcome.InStep

variable {p p' : Pass} {o o' : Outcome}

theorem ok (h : p.InStep v w p') : InStep v w (.ok p) (.ok p') := ⟨rfl, h⟩

theorem fail (h : p.InStep v w p') (e : ResolveError) :
    InStep v w (.fail e p) (.fail (e.movedTo w) p') := ⟨rfl, h⟩

/-- Resolutions that have ended alike go on alike. -/
theorem andThen (h : InStep v w o o') {next next' : Pass → Outcome}
    (hnext : ∀ {p p'}, p.InStep v w p' → InStep v w (next p) (next' p')) :
    InStep v w (o.andThen next) (o'.andThen next') := by
  obtain ⟨result', p'⟩ := o'
  obtain ⟨hresult, hpass⟩ := h
  obtain rfl : result' = _ := hresult
  rcases Outcome.cases o with ⟨p, rfl⟩ | ⟨e, p, rfl⟩
  · exact hnext hpass
  · exact .fail hpass e

end Outcome.InStep

namespace Registry

variable {r : Registry} {p p' : Pass}

/-- Every type has the same declaration at both versions, or none at either. -/
def Alike (r : Registry) (v w : Version) : Prop :=
  ∀ n history, r.get? n = some history → history.at? v = history.at? w

/-- A look-up differs in the version of its fault only. -/
theorem Alike.declarationAt (h : r.Alike v w) (n : QualifiedName) :
    r.declarationAt n w = (r.declarationAt n v).mapError (ResolveError.movedTo w) := by
  unfold Registry.declarationAt
  cases hget : r.get? n with
  | none => rfl
  | some history =>
      simp only [← h n history hget]
      cases history.at? v <;> rfl

theorem resolveAlias_inStep (h : r.Alike v w) (hp : p.InStep v w p') (n : QualifiedName) :
    (r.resolveAlias v n p).InStep v w (r.resolveAlias w n p') := by
  by_cases hm : (n, v) ∈ p.marks
  · have hm' := (hp.marks n).mp hm
    rw [resolveAlias, if_pos (Pass.isMarked_iff.mpr hm), resolveAlias,
      if_pos (Pass.isMarked_iff.mpr hm')]
    exact .ok hp
  have hm' : (n, w) ∉ p'.marks := fun hmarked => hm ((hp.marks n).mpr hmarked)
  rw [resolveAlias_of_fresh hm, resolveAlias_of_fresh hm', h.declarationAt]
  cases r.declarationAt n v with
  | error e => exact .fail hp e
  | ok d =>
      cases d with
      | «alias» shape => exact .ok ((hp.mark n).report _)
      | _ => exact .fail hp _

/-- An alias is resolved alike at every depth. -/
theorem resolveWithin_alias (r : Registry) (v : Version) (depth : Nat) (n : QualifiedName)
    (p : Pass) : r.resolveWithin v depth (.alias n) p = r.resolveAlias v n p := by
  cases depth <;> rw [resolveWithin]

/-- Runs over a list stay in step if their steps do. -/
theorem resolveAll_inStep {resolve resolve' : Mention → Pass → Outcome}
    (hstep : ∀ m {p p'}, p.InStep v w p' → (resolve m p).InStep v w (resolve' m p'))
    (ms : List Mention) (hp : p.InStep v w p') :
    (resolveAll resolve ms p).InStep v w (resolveAll resolve' ms p') := by
  induction ms generalizing p p' with
  | nil => exact .ok hp
  | cons m rest ih =>
      rw [resolveAll, resolveAll]
      exact (hstep m hp).andThen ih

/-- Every move of the resolver keeps the two runs in step. The induction is on the bound:
a declaration that both enter mentions the same names. -/
theorem resolveWithin_inStep (h : r.Alike v w) (depth : Nat) (m : Mention)
    (hp : p.InStep v w p') :
    (r.resolveWithin v depth m p).InStep v w (r.resolveWithin w depth m p') := by
  induction depth generalizing m p p' with
  | zero =>
      cases m with
      | «alias» n =>
          rw [resolveWithin_alias, resolveWithin_alias]
          exact resolveAlias_inStep h hp n
      | declaration n =>
          rw [resolveWithin, resolveWithin]
          exact .ok hp
  | succ depth ih =>
      cases m with
      | «alias» n =>
          rw [resolveWithin_alias, resolveWithin_alias]
          exact resolveAlias_inStep h hp n
      | declaration n =>
          by_cases hm : (n, v) ∈ p.marks
          · rw [resolveWithin_of_marked (m := .declaration n) hm,
              resolveWithin_of_marked (m := .declaration n) ((hp.marks n).mp hm)]
            exact .ok hp
          have hm' : (n, w) ∉ p'.marks := fun hmarked => hm ((hp.marks n).mpr hmarked)
          rw [resolveWithin_declaration_of_fresh hm, resolveWithin_declaration_of_fresh hm',
            h.declarationAt]
          cases r.declarationAt n v with
          | error e => exact .fail (hp.mark n) e
          | ok d =>
              cases d with
              | «alias» shape => exact .ok ((hp.mark n).report _)
              | _ =>
                  exact (resolveAll_inStep (fun m _ _ hq => ih m hq) _ (hp.mark n)).andThen
                    fun hq => .ok (hq.report _)

theorem resolveMentions_inStep (h : r.Alike v w) (ms : List Mention) :
    (r.resolveMentions v ms .empty).InStep v w (r.resolveMentions w ms .empty) :=
  resolveAll_inStep (fun m _ _ hp => resolveWithin_inStep h r.depth m hp) ms (.empty v w)

end Registry

/-! ### Builds side by side -/

/-- The query exists at both versions or at neither, and its responses are the same. -/
structure Query.Alike (q : Query) (v w : Version) : Prop where
  window : q.window.contains v = q.window.contains w
  schema : q.schema.at? v = q.schema.at? w

theorem Query.Alike.at? {q : Query} (h : q.Alike v w) : q.at? w = q.at? v := by
  unfold Query.at?
  rw [h.window, h.schema]

/-- Nothing that the selection is made of tells the versions apart. -/
structure ApiDefinition.Alike (d : ApiDefinition) (s : Selection) (w : Version) : Prop where
  types : d.registry.Alike s.version w
  queries : ∀ queries, d.selectedQueries s = .ok queries → ∀ q ∈ queries, q.Alike s.version w

/-- An endpoint of every version with one response. -/
structure Endpoint.Steady (e : Endpoint) : Prop where
  since : e.since = .classic
  stop : e.stop = none
  schema : ∃ x, e.schemas = [x]

namespace Endpoint

variable {e : Endpoint} {r : Registry}

/-- The query of a steady endpoint exists at every version, with the one response. -/
theorem Steady.base_alike (he : e.Steady) {base : Query} (h : e.baseQuery = .ok base)
    (v w : Version) : base.Alike v w := by
  obtain ⟨⟨since, type⟩, hschemas⟩ := he.schema
  have hwindow : base.window = .unbounded := by
    rw [window_of_baseQuery h, he.since, he.stop]
    rfl
  have hcontains : ∀ v, base.window.contains v = true := by
    intro v
    rw [hwindow]
    exact Window.contains_unbounded v
  have htimeline := (baseQuery_eq_ok h).2
  have hat : ∀ v, base.schema.at? v = some type := by
    intro v
    -- there is a response at every version of the window, and only one to choose from
    obtain ⟨type', htype'⟩ := exists_response_of_contains htimeline (hcontains v)
    have hmem := mem_schemas_of_schemaTimeline htimeline (Timeline.mem_values_of_at? htype')
    rw [hschemas] at hmem
    rw [htype', List.mem_singleton.mp hmem]
  exact ⟨(hcontains v).trans (hcontains w).symm, (hat v).trans (hat w).symm⟩

theorem Steady.alike (he : e.Steady) {queries : List Query} (h : e.queries r = .ok queries)
    {q : Query} (hq : q ∈ queries) (v w : Version) : q.Alike v w := by
  obtain ⟨base, hbase, hqueries⟩ := queries_eq_ok h
  have hsame := he.base_alike hbase v w
  rcases hqueries with rfl | ⟨index, type, -, -, rfl⟩
  · obtain rfl := List.mem_singleton.mp hq
    exact hsame
  · obtain ⟨query, -, rfl⟩ := List.mem_map.mp hq
    refine ⟨hsame.window, ?_⟩
    show (base.schema.map (indexSchema type query)).at? v = (base.schema.map _).at? w
    rw [Timeline.at?_map, Timeline.at?_map, hsame.schema]

end Endpoint

namespace ApiDefinition

variable {d : ApiDefinition} {s : Selection}

theorem auxiliaryAt_of_alike (h : d.registry.Alike v w) : d.auxiliaryAt w = d.auxiliaryAt v := by
  unfold auxiliaryAt
  refine List.filter_congr fun name _ => ?_
  cases hget : d.registry.get? name with
  | none => rfl
  | some history => simp [h name history hget]

theorem rootMentions_of_alike (h : d.Alike s w) {queries : List Query}
    (hqueries : d.selectedQueries s = .ok queries) :
    d.rootMentions { s with version := w } queries = d.rootMentions s queries := by
  have hat : queries.filterMap (·.at? w) = queries.filterMap (·.at? s.version) :=
    List.filterMap_congr fun q hq => (h.queries queries hqueries q hq).at?
  unfold rootMentions
  rw [hat, auxiliaryAt_of_alike h.types]

/-- Where every endpoint is steady, only types tell versions apart. -/
theorem alike_of_steady (htypes : d.registry.Alike s.version w)
    (hsteady : ∀ e ∈ d.endpoints, e.Steady) : d.Alike s w := by
  refine ⟨htypes, fun queries hqueries q hq => ?_⟩
  obtain ⟨e, he, -, list, hlist, hq⟩ := (mem_selectedQueries hqueries).mp hq
  exact (hsteady e he).alike hlist hq s.version w

/-- The walks of two builds at alike versions end alike. -/
theorem outcome_inStep (h : d.Alike s w) {queries : List Query}
    (hqueries : d.selectedQueries s = .ok queries) :
    (d.outcome s queries).InStep s.version w (d.outcome { s with version := w } queries) := by
  unfold outcome
  rw [rootMentions_of_alike h hqueries]
  exact Registry.resolveMentions_inStep h.types _

/-- A build that succeeds at a version succeeds at every version alike, with the same
queries, types and languages. -/
theorem build_eq_ok_of_alike (h : d.Alike s w) {api : Api} (hbuild : d.build s = .ok api) :
    d.build { s with version := w } = .ok { api with version := w } := by
  obtain ⟨queries, hqueries, hok, rfl⟩ := build_eq_ok hbuild
  have hstep := outcome_inStep h hqueries
  have hok' : (d.outcome { s with version := w } queries).result = .ok () := by
    rw [hstep.result, hok]
    rfl
  have hat : queries.filterMap (·.at? w) = queries.filterMap (·.at? s.version) :=
    List.filterMap_congr fun q hq => (h.queries queries hqueries q hq).at?
  -- which queries are selected does not depend on the version
  have hqueries' : d.selectedQueries { s with version := w } = .ok queries := hqueries
  rw [build_eq hqueries', hok', hat, hstep.pass.types]

/-- A build that fails at a version fails at every version alike, with the same fault. -/
theorem build_eq_error_of_alike (h : d.Alike s w) {error : ApiError}
    (hbuild : d.build s = .error error) :
    d.build { s with version := w } = .error (error.movedTo w) := by
  cases hqueries : d.selectedQueries s with
  | error cause =>
      have hqueries' : d.selectedQueries { s with version := w } = .error cause := hqueries
      obtain rfl : cause = error :=
        Except.error.inj ((build_eq_of_selectedQueries_eq_error hqueries).symm.trans hbuild)
      rw [build_eq_of_selectedQueries_eq_error hqueries']
      -- the queries fail before anything is looked up at a version
      rcases selectedQueries_eq_error hqueries with ⟨name, rfl⟩ | ⟨e, -, cause, -, rfl⟩
      · rfl
      · rfl
  | ok queries =>
      have hqueries' : d.selectedQueries { s with version := w } = .ok queries := hqueries
      obtain ⟨e, he, rfl⟩ := build_eq_error hqueries hbuild
      rw [build_eq hqueries', (outcome_inStep h hqueries).result, he]
      rfl

/-- Where no type changes, a fault tells of no version. -/
theorem movedTo_of_constant
    (hconstant : ∀ n history, d.registry.get? n = some history → history.isConstant = true)
    {error : ApiError} (hbuild : d.build s = .error error) (w : Version) :
    error.movedTo w = error := by
  cases hqueries : d.selectedQueries s with
  | error cause =>
      obtain rfl : cause = error :=
        Except.error.inj ((build_eq_of_selectedQueries_eq_error hqueries).symm.trans hbuild)
      rcases selectedQueries_eq_error hqueries with ⟨name, rfl⟩ | ⟨e, -, cause, -, rfl⟩
      · rfl
      · rfl
  | ok queries =>
      obtain ⟨e, he, rfl⟩ := build_eq_error hqueries hbuild
      obtain ⟨n, -, hblames⟩ := (d.outcome_resolves s queries).blames he
      cases e with
      | missing _ => rfl
      | notAlias _ _ => rfl
      | unavailable _ _ =>
          obtain ⟨-, -, history, hget, hnone⟩ := hblames
          have hsteady := hconstant n history hget
          cases history with
          | constant _ => cases hnone
          | evolving _ => cases hsteady

/-- **A version matters to a build only through what carries dates.** If two versions are
alike for a selection, the build at one succeeds exactly if the build at the other does:
with the same queries, types and languages, or with the same fault, up to the version at
which a type is said not to exist. So an API in which no type changes, and every endpoint
is there at every version with one response, is the same at every version. -/
theorem build_of_alike (d : ApiDefinition) :
    (∀ s w, d.Alike s w →
      (∀ api, d.build s = .ok api →
        d.build { s with version := w } = .ok { api with version := w }) ∧
      ∀ error, d.build s = .error error →
        d.build { s with version := w } = .error (error.movedTo w)) ∧
    ((∀ n history, d.registry.get? n = some history → history.isConstant = true) →
      (∀ e ∈ d.endpoints, e.Steady) →
      ∀ s w, d.build { s with version := w } =
        (d.build s).map fun api => { api with version := w }) := by
  refine ⟨fun s w h => ⟨fun api => build_eq_ok_of_alike h, fun error =>
    build_eq_error_of_alike h⟩, fun hconstant hsteady s w => ?_⟩
  have htypes : d.registry.Alike s.version w := by
    intro n history hget
    have hsame := hconstant n history hget
    cases history with
    | constant _ => rfl
    | evolving _ => cases hsame
  have h : d.Alike s w := alike_of_steady htypes hsteady
  cases hbuild : d.build s with
  | ok api => exact build_eq_ok_of_alike h hbuild
  | error error =>
      rw [build_eq_error_of_alike h hbuild, movedTo_of_constant hconstant hbuild w]
      rfl

end ApiDefinition

/-! ### Nodes over time -/

namespace NodeTree

/-- The API of the nodes in which they come up in 2020. -/
def dated : ApiDefinition :=
  { definition with
    registry :=
      { definition.registry with
        types := definition.registry.types.insert node
          (.evolving (.single nodeShape ⟨.dated20201117, none⟩)) } }

theorem steady : ∀ e ∈ definition.endpoints, e.Steady := by
  intro e he
  obtain rfl := List.mem_singleton.mp he
  exact ⟨rfl, rfl, _, rfl⟩

/-- The nodes do not exist at the two oldest versions, and the builds there differ in
nothing but the version they tell of. Nodes that never change are the same API at the oldest
version and at the most recent one. -/
theorem build_of_alike_nodeTree :
    dated.build ⟨.classic, none, false⟩ = .error (.resolve (.unavailable node .classic)) ∧
      dated.build ⟨.dated20190221, none, false⟩ =
        .error (.resolve (.unavailable node .dated20190221)) ∧
      ∃ api, definition.build ⟨.classic, none, true⟩ = .ok api ∧
        definition.build ⟨.latest, none, true⟩ = .ok { api with version := .latest } := by
  have hfails : dated.build ⟨.classic, none, false⟩ =
      .error (.resolve (.unavailable node .classic)) := by
    have hcause : (match dated.build ⟨.classic, none, false⟩ with
        | .ok _ => false
        | .error cause => decide (cause = .resolve (.unavailable node .classic))) = true := by
      decide +kernel
    cases hbuild : dated.build ⟨.classic, none, false⟩ with
    | ok api => simp [hbuild] at hcause
    | error cause =>
        rw [hbuild] at hcause
        rw [of_decide_eq_true hcause]
  have hentries : ∀ e ∈ dated.registry.types.entries,
      e.2.at? .classic = e.2.at? .dated20190221 := by decide +kernel
  have hconstant : ∀ e ∈ definition.registry.types.entries, e.2.isConstant = true := by
    decide +kernel
  have halike : dated.Alike ⟨.classic, none, false⟩ .dated20190221 :=
    ApiDefinition.alike_of_steady
      (fun n history hget => hentries (n, history) (SortedMap.get?_eq_some_iff.mp hget)) steady
  obtain ⟨api, hbuild⟩ := exists_build
  refine ⟨hfails, ((ApiDefinition.build_of_alike dated).1 _ _ halike).2 _ hfails, api, hbuild, ?_⟩
  have hsame := (ApiDefinition.build_of_alike definition).2
    (fun n history hget => hconstant (n, history) (SortedMap.get?_eq_some_iff.mp hget)) steady
    ⟨.classic, none, true⟩ .latest
  rw [hbuild] at hsame
  exact hsame

end NodeTree

end ApiChronicle
