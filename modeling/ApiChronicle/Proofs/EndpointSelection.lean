import ApiChronicle.Proofs.BuildSuccess
import ApiChronicle.Proofs.BuildClosure

/-! # ApiChronicle.Proofs.EndpointSelection

**Building a part of an API** and building all of it.

A build walks once from the queries of all selected endpoints, skips the names that it has
met, and drops a query that it has seen. So what it does for one endpoint could depend on
the others. It does not (`ApiDefinition.build_compositional`): a selection of endpoints
leads to what each of them leads to, whatever the order in which the walk gets there, and
every query carries the name of its endpoint, so repeated queries are dropped within one
name and never across two.

The auxiliary types add roots to a selection and no queries.
-/

namespace ApiChronicle

/-! ### Repeated elements -/

/-- Leaving elements out commutes with dropping repetitions. -/
theorem List.eraseDups_filter {α : Type} [BEq α] [LawfulBEq α] (p : α → Bool) (l : List α) :
    (l.filter p).eraseDups = l.eraseDups.filter p := by
  -- dropping repetitions recurses on what is left of the tail, so the induction is on length
  induction hlength : l.length using Nat.strongRecOn generalizing l with
  | ind length ih =>
      cases l with
      | nil => rfl
      | cons a rest =>
          have hshorter : (rest.filter fun b => !b == a).length < length := by
            have hle := List.length_filter_le (fun b => !b == a) rest
            rw [List.length_cons] at hlength
            omega
          have hrest := ih _ hshorter (rest.filter fun b => !b == a) rfl
          rw [List.eraseDups_cons]
          by_cases ha : p a = true
          · rw [List.filter_cons_of_pos ha, List.filter_cons_of_pos ha, List.eraseDups_cons,
              ← hrest, List.filter_filter, List.filter_filter]
            simp only [Bool.and_comm]
          · -- `a` itself is left out, so no copy of it has to be dropped from the rest
            have hkept : (rest.filter fun b => !b == a).filter p = rest.filter p := by
              rw [List.filter_filter]
              refine List.filter_congr fun b _ => ?_
              by_cases hb : b = a
              · simp [hb, ha]
              · simp [hb]
            rw [List.filter_cons_of_neg ha, List.filter_cons_of_neg ha, ← hrest, hkept]

/-! ### Sets of names -/

namespace SortedSet

open Std

variable {κ : Type} [Ord κ] [TransOrd κ]

/-- The members of either set. -/
def union (a b : SortedSet κ) : SortedSet κ := SortedMap.ofList (a.entries ++ b.entries)

theorem contains_union [LawfulEqOrd κ] {a b : SortedSet κ} {k : κ} :
    (a.union b).contains k = true ↔ a.contains k = true ∨ b.contains k = true := by
  unfold union
  rw [SortedMap.contains_ofList]
  simp only [SortedMap.contains_iff_exists, SortedMap.get?_eq_some_iff, List.mem_append,
    exists_or]

end SortedSet

/-! ### Queries and their endpoints -/

/-- A query carries the name of its endpoint. -/
theorem Endpoint.endpoint_of_queries {e : Endpoint} {r : Registry} {queries : List Query}
    (h : e.queries r = .ok queries) {q : Query} (hq : q ∈ queries) :
    q.request.endpoint = e.name := by
  obtain ⟨base, hbase, hqueries⟩ := queries_eq_ok h
  have hname : base.request.endpoint = e.name := by
    rw [(baseQuery_eq_ok hbase).1]
    rfl
  rcases hqueries with rfl | ⟨index, type, -, -, rfl⟩
  · obtain rfl := List.mem_singleton.mp hq
    exact hname
  · obtain ⟨query, -, rfl⟩ := List.mem_map.mp hq
    exact hname

/-- Fixing the version keeps what a query asks. -/
theorem Query.request_at? {q : Query} {v : Version} {x : ResolvedQuery}
    (h : q.at? v = some x) : x.request = q.request := by
  obtain ⟨-, schema, -, rfl⟩ := at?_eq_some_iff.mp h
  rfl

namespace ApiDefinition

variable {d : ApiDefinition} {v : Version} {auxiliary : Bool} {a b c : SortedSet String}
  {n : QualifiedName}

/-- A query stands with those of its own endpoint, so leaving endpoints out before their
queries are made leaves out the queries that carry their names. -/
theorem forall₂_queries_filter {r : Registry} {endpoints : List Endpoint}
    {lists : List (List Query)}
    (h : List.Forall₂ (fun e list => e.queries r = .ok list) endpoints lists) :
    ∃ lists', List.Forall₂ (fun e list => e.queries r = .ok list)
        (endpoints.filter fun e => a.contains e.name) lists' ∧
      lists'.flatten = lists.flatten.filter fun q => a.contains q.request.endpoint := by
  induction h with
  | nil => exact ⟨[], .nil, rfl⟩
  | @cons e queries rest others hqueries _ ih =>
      obtain ⟨lists', hlists', hflatten⟩ := ih
      rw [List.flatten_cons, List.filter_append, ← hflatten]
      have hnames : ∀ q ∈ queries, a.contains q.request.endpoint = a.contains e.name :=
        fun q hq => by rw [Endpoint.endpoint_of_queries hqueries hq]
      by_cases he : a.contains e.name = true
      · have hall : queries.filter (fun q => a.contains q.request.endpoint) = queries :=
          List.filter_eq_self.mpr fun q hq => (hnames q hq).trans he
        refine ⟨queries :: lists', ?_, by rw [hall, List.flatten_cons]⟩
        rw [List.filter_cons, if_pos he]
        exact .cons hqueries hlists'
      · have hnone : queries.filter (fun q => a.contains q.request.endpoint) = [] :=
          List.filter_eq_nil_iff.mpr fun q hq hkept => he ((hnames q hq).symm.trans hkept)
        refine ⟨lists', ?_, by rw [hnone, List.nil_append]⟩
        rwa [List.filter_cons, if_neg he]

/-- The queries of fewer endpoints are those that carry their names, in the same order. -/
theorem selectedQueries_of_subset (hsub : ∀ name, a.contains name = true → c.contains name = true)
    {queries : List Query} (h : d.selectedQueries ⟨v, some c, auxiliary⟩ = .ok queries) :
    d.selectedQueries ⟨v, some a, auxiliary⟩ =
      .ok (queries.filter fun q => a.contains q.request.endpoint) := by
  obtain ⟨hknown, lists, hlists, rfl⟩ := selectedQueries_eq_ok_iff.mp h
  have hknows : d.Knows ⟨v, some a, auxiliary⟩ := by
    intro names hnames name hname
    obtain rfl := Option.some.inj hnames
    exact hknown c rfl name (hsub name hname)
  obtain ⟨lists', hlists', hflatten⟩ := forall₂_queries_filter (a := a) hlists
  -- the smaller selection keeps the same endpoints, whether it starts from all or from `c`
  have hkeeps : (d.endpoints.filter (Selection.keeps ⟨v, some c, auxiliary⟩)).filter
      (fun e => a.contains e.name) =
      d.endpoints.filter (Selection.keeps ⟨v, some a, auxiliary⟩) := by
    rw [List.filter_filter]
    refine List.filter_congr fun e _ => ?_
    show (a.contains e.name && c.contains e.name) = a.contains e.name
    by_cases he : a.contains e.name = true
    · simp [he, hsub e.name he]
    · simp [he]
  rw [hkeeps] at hlists'
  refine selectedQueries_eq_ok_iff.mpr ⟨hknows, lists', hlists', ?_⟩
  rw [hflatten, List.eraseDups_filter]

/-! ### Roots -/

/-- More endpoints have more roots. -/
theorem IsRoot.of_subset (hsub : ∀ name, a.contains name = true → c.contains name = true)
    (h : d.IsRoot ⟨v, some a, auxiliary⟩ n) : d.IsRoot ⟨v, some c, auxiliary⟩ n := by
  cases h with
  | query offered window uses names =>
      obtain ⟨e, he, hkeeps, hqueries⟩ := offered
      exact .query ⟨e, he, hsub e.name hkeeps, hqueries⟩ window uses names
  | auxiliary included member declared => exact .auxiliary included member declared

theorem isRoot_union_iff :
    d.IsRoot ⟨v, some (a.union b), auxiliary⟩ n ↔
      d.IsRoot ⟨v, some a, auxiliary⟩ n ∨ d.IsRoot ⟨v, some b, auxiliary⟩ n := by
  constructor
  · intro h
    cases h with
    | query offered window uses names =>
        obtain ⟨e, he, hkeeps, hqueries⟩ := offered
        rcases SortedSet.contains_union.mp hkeeps with hkeeps | hkeeps
        · exact Or.inl (.query ⟨e, he, hkeeps, hqueries⟩ window uses names)
        · exact Or.inr (.query ⟨e, he, hkeeps, hqueries⟩ window uses names)
    | auxiliary included member declared => exact Or.inl (.auxiliary included member declared)
  · intro h
    rcases h with h | h
    · exact h.of_subset fun name hname => SortedSet.contains_union.mpr (Or.inl hname)
    · exact h.of_subset fun name hname => SortedSet.contains_union.mpr (Or.inr hname)

/-- A union of selections leads to what either of them leads to. -/
theorem reachable_union_iff :
    d.Reachable ⟨v, some (a.union b), auxiliary⟩ n ↔
      d.Reachable ⟨v, some a, auxiliary⟩ n ∨ d.Reachable ⟨v, some b, auxiliary⟩ n := by
  unfold Reachable
  rw [← Registry.reachable_union_iff]
  simp only [isRoot_union_iff]
  rfl

/-- Without the auxiliary types a selection has fewer roots. -/
theorem IsRoot.with_auxiliary {names : Option (SortedSet String)}
    (h : d.IsRoot ⟨v, names, false⟩ n) : d.IsRoot ⟨v, names, true⟩ n := by
  cases h with
  | query offered window uses hn => exact .query offered window uses hn
  | auxiliary included _ _ => cases included

/-! ### Smaller selections -/

/-- A selection that leads to no more than a built one can be built, and the types it has are
those of the built one that it leads to. -/
theorem exists_build_of_reachable (hk : d.WellKinded) {s s' : Selection} {api : Api}
    (h : d.build s = .ok api) {queries : List Query}
    (hqueries : d.selectedQueries s' = .ok queries) (hversion : s'.version = s.version)
    (hsub : ∀ n, d.Reachable s' n → d.Reachable s n) :
    ∃ api', d.build s' = .ok api' ∧
      api'.queries = queries.filterMap (·.at? s.version) ∧
      ∀ n schema, api'.types.get? n = some schema ↔
        d.Reachable s' n ∧ api.types.get? n = some schema := by
  obtain ⟨all, hall, -⟩ := build_eq_ok h
  have havailable := (exists_build_iff_available hk hall).mp ⟨api, h⟩
  obtain ⟨api', h'⟩ := (exists_build_iff_available hk hqueries).mpr fun n hn => by
    rw [hversion]
    exact havailable n (hsub n hn)
  refine ⟨api', h', ?_, fun n schema => ?_⟩
  · obtain ⟨queries', hqueries', -, rfl⟩ := build_eq_ok h'
    obtain rfl := Except.ok.inj (hqueries.symm.trans hqueries')
    rw [hversion]
  · rw [get?_types_of_build h', get?_types_of_build h, hversion]
    constructor
    · intro hn
      exact ⟨hn.1, hsub n hn.1, hn.2⟩
    · intro hn
      exact ⟨hn.1, hn.2.2⟩

/-- Fewer endpoints of a built selection can be built. The queries are those of the larger
API that carry their names, the types those that they lead to. -/
theorem exists_build_of_subset (hk : d.WellKinded) {api : Api}
    (h : d.build ⟨v, some c, auxiliary⟩ = .ok api)
    (hsub : ∀ name, a.contains name = true → c.contains name = true) :
    ∃ api', d.build ⟨v, some a, auxiliary⟩ = .ok api' ∧
      api'.queries = api.queries.filter (fun x => a.contains x.request.endpoint) ∧
      ∀ n schema, api'.types.get? n = some schema ↔
        d.Reachable ⟨v, some a, auxiliary⟩ n ∧ api.types.get? n = some schema := by
  obtain ⟨queries, hqueries, -, hapi⟩ := build_eq_ok h
  obtain ⟨api', h', hkept, htypes⟩ :=
    exists_build_of_reachable hk h (selectedQueries_of_subset hsub hqueries) rfl
      fun n hn => hn.mono fun _ hroot => hroot.of_subset hsub
  refine ⟨api', h', ?_, htypes⟩
  rw [hkept, hapi, List.filterMap_filter, List.filter_filterMap]
  refine List.filterMap_congr fun q _ => ?_
  -- a query and its form at the version carry the same name
  cases hat : q.at? v with
  | none => simp
  | some x => simp [Option.filter, Query.request_at? hat]

/-- **Selecting endpoints is compositional.** If the union of two sets of endpoints can be
built, so can each of them. The types of the union are those of the two, so where both have
a type it is the same; the queries of each are those of the union that carry its names, in
the order of the union. If a selection can be built with the auxiliary types, it can be
built without: it has the same queries and no other types. -/
theorem build_compositional (hk : d.WellKinded) :
    (∀ v auxiliary (a b : SortedSet String) api,
      d.build ⟨v, some (a.union b), auxiliary⟩ = .ok api →
      ∃ apiA apiB, d.build ⟨v, some a, auxiliary⟩ = .ok apiA ∧
        d.build ⟨v, some b, auxiliary⟩ = .ok apiB ∧
        (∀ n schema, api.types.get? n = some schema ↔
          apiA.types.get? n = some schema ∨ apiB.types.get? n = some schema) ∧
        apiA.queries = api.queries.filter (fun x => a.contains x.request.endpoint) ∧
        apiB.queries = api.queries.filter (fun x => b.contains x.request.endpoint)) ∧
    ∀ v names api, d.build ⟨v, names, true⟩ = .ok api →
      ∃ api', d.build ⟨v, names, false⟩ = .ok api' ∧ api'.queries = api.queries ∧
        ∀ n schema, api'.types.get? n = some schema → api.types.get? n = some schema := by
  constructor
  · intro v auxiliary a b api h
    obtain ⟨apiA, hA, hqueriesA, htypesA⟩ := exists_build_of_subset hk h
      fun name hname => SortedSet.contains_union.mpr (Or.inl hname)
    obtain ⟨apiB, hB, hqueriesB, htypesB⟩ := exists_build_of_subset hk h
      fun name hname => SortedSet.contains_union.mpr (Or.inr hname)
    refine ⟨apiA, apiB, hA, hB, fun n schema => ?_, hqueriesA, hqueriesB⟩
    rw [htypesA, htypesB, ← or_and_right, ← reachable_union_iff]
    exact ⟨fun hn => ⟨((get?_types_of_build h).mp hn).1, hn⟩, And.right⟩
  · intro v names api h
    obtain ⟨queries, hqueries, -, hapi⟩ := build_eq_ok h
    -- the queries are selected before the auxiliary types are looked at
    have hsame : d.selectedQueries ⟨v, names, false⟩ = .ok queries := hqueries
    obtain ⟨api', h', hkept, htypes⟩ := exists_build_of_reachable hk h hsame rfl
      fun n hn => hn.mono fun _ hroot => hroot.with_auxiliary
    refine ⟨api', h', ?_, fun n schema hn => ((htypes n schema).mp hn).2⟩
    rw [hkept, hapi]

end ApiDefinition

/-! ### Nodes and orphans -/

namespace NodeTree

/-- The API of the nodes with an endpoint of its own for orphans, and the endpoint of the
nodes twice. -/
def forest : ApiDefinition :=
  { definition with
    endpoints := definition.endpoints ++
      [{ Endpoint.make "Orphans" "/orphans" with schemas := [(.classic, .declaration orphan)] }] ++
      definition.endpoints }

/-- The nodes of the forest alone have the first of its two queries, and with the auxiliary
types left out they are built as well. -/
theorem build_compositional_forest :
    ∃ api nodes orphans bare,
      forest.build ⟨.classic, some ((SortedSet.ofList ["Nodes"]).union
        (.ofList ["Orphans"])), true⟩ = .ok api ∧
      forest.build ⟨.classic, some (.ofList ["Nodes"]), true⟩ = .ok nodes ∧
      forest.build ⟨.classic, some (.ofList ["Orphans"]), true⟩ = .ok orphans ∧
      forest.build ⟨.classic, some ((SortedSet.ofList ["Nodes"]).union
        (.ofList ["Orphans"])), false⟩ = .ok bare ∧
      api.queries.length = 2 ∧ nodes.queries.length = 1 ∧ bare.queries = api.queries := by
  have hk : forest.WellKinded := by decide
  obtain ⟨api, h⟩ := Except.isOk_iff_exists.mp
    (show (forest.build ⟨.classic, some ((SortedSet.ofList ["Nodes"]).union
      (.ofList ["Orphans"])), true⟩).isOk = true by decide +kernel)
  obtain ⟨hunion, hauxiliary⟩ := ApiDefinition.build_compositional hk
  obtain ⟨nodes, orphans, hnodes, horphans, -, hkept, -⟩ := hunion _ _ _ _ _ h
  obtain ⟨bare, hbare, hsame, -⟩ := hauxiliary _ _ _ h
  have hnames : (forest.build ⟨.classic, some ((SortedSet.ofList ["Nodes"]).union
      (.ofList ["Orphans"])), true⟩).toOption.map (fun api => api.queries.map
        (·.request.endpoint)) = some ["Nodes", "Orphans"] := by decide +kernel
  rw [h] at hnames
  have hendpoints : api.queries.map (·.request.endpoint) = ["Nodes", "Orphans"] :=
    Option.some.inj hnames
  refine ⟨api, nodes, orphans, bare, h, hnodes, horphans, hbare, ?_, ?_, hsame⟩
  · rw [← List.length_map (·.request.endpoint), hendpoints]
    rfl
  · have hcount := congrArg (List.countP (SortedSet.ofList ["Nodes"]).contains) hendpoints
    rw [List.countP_map] at hcount
    rw [hkept, ← List.countP_eq_length_filter]
    exact hcount.trans (by decide)

end NodeTree

end ApiChronicle
