import ApiChronicle.Proofs.EndpointSelection

/-! # ApiChronicle.Proofs.SelectedQueries

**Which queries a built API has**, and in which order.

The selected endpoints make their queries one after the other. Of equal queries the first is
kept, and of these the ones whose window holds the version are shown as they are there
(`queries_of_build`). A query inside its window always has a response, so none of them is
lost when the version is fixed.

A selection that names an endpoint that does not exist fails with the smallest such name, and
this before any endpoint is looked at. Otherwise it fails with the first selected endpoint
that cannot make its queries.
-/

namespace ApiChronicle

/-! ### First occurrences -/

section FirstOccurrences

variable {α : Type} [BEq α]

/-- A list holds every element of another one once, in the order in which they occur there
first. -/
structure List.FirstOccurrences (kept all : List α) : Prop where
  mem_iff : ∀ a, a ∈ kept ↔ a ∈ all
  order : kept.Pairwise fun a b => all.idxOf a < all.idxOf b

variable [LawfulBEq α]

/-- Dropping repetitions keeps the first occurrences. -/
theorem List.firstOccurrences_eraseDups (l : List α) :
    List.FirstOccurrences l.eraseDups l := by
  refine ⟨fun a => List.mem_eraseDups, ?_⟩
  induction l with
  | nil => exact .nil
  | cons a rest ih =>
      rw [List.eraseDups_cons, List.eraseDups_filter]
      -- behind the head there is no copy of it, so all places move on by one
      have hplace : ∀ b ∈ rest.eraseDups.filter fun b => !b == a,
          (a :: rest).idxOf b = rest.idxOf b + 1 := by
        intro b hb
        have hne : a ≠ b := by
          rintro rfl
          simpa using (List.mem_filter.mp hb).2
        exact List.idxOf_cons_ne _ hne
      refine List.pairwise_cons.mpr ⟨fun b hb => ?_, ?_⟩
      · rw [hplace b hb, List.idxOf_cons_self]
        exact Nat.succ_pos _
      · refine (ih.filter _).imp_of_mem fun {b c} hb hc hlt => ?_
        rw [hplace b hb, hplace c hc]
        exact Nat.succ_lt_succ hlt

end FirstOccurrences

/-! ### Queries at a version -/

/-- If no query lacks a response inside its window, then fixing the version keeps the queries
whose window holds it, each with its response there. -/
theorem Query.forall₂_filterMap_at? {v : Version} {queries : List Query}
    (h : ∀ q ∈ queries, q.window.contains v = true → ∃ t, q.schema.at? v = some t) :
    List.Forall₂ (fun q x => x.request = q.request ∧ q.schema.at? v = some x.schema)
      (queries.filter (·.window.contains v)) (queries.filterMap (·.at? v)) := by
  induction queries with
  | nil => exact .nil
  | cons q rest ih =>
      obtain ⟨hq, hrest⟩ := List.forall_mem_cons.mp h
      by_cases hwindow : q.window.contains v = true
      · obtain ⟨t, ht⟩ := hq hwindow
        have hat : q.at? v = some ⟨q.request, t⟩ := at?_eq_some_iff.mpr ⟨hwindow, t, ht, rfl⟩
        rw [List.filter_cons, if_pos hwindow, List.filterMap_cons, hat]
        exact .cons ⟨rfl, ht⟩ (ih hrest)
      · have hat : q.at? v = none := if_neg hwindow
        rw [List.filter_cons, if_neg hwindow, List.filterMap_cons, hat]
        exact ih hrest

namespace ApiDefinition

variable {d : ApiDefinition} {s : Selection} {name : String}

/-! ### Unknown names -/

/-- The unknown name that is found is the smallest one. -/
theorem lacks_of_unknownEndpoint? (h : d.unknownEndpoint? s = some name) :
    d.Lacks s name ∧ ∀ other, d.Lacks s other → (compare name other).isLE = true := by
  unfold unknownEndpoint? at h
  have hnone := List.find?_some (p := fun name => (d.endpoint? name).isNone) h
  have hmem := mem_selected_names.mp (List.mem_of_find?_eq_some h)
  refine ⟨⟨hmem, endpoint?_eq_none_iff.mp (Option.isNone_iff_eq_none.mp hnone)⟩, ?_⟩
  intro other hother
  obtain ⟨⟨names, hnames, hcontains⟩, hlacks⟩ := hother
  rw [hnames] at h
  refine SortedMap.isLE_of_find?_keys h (SortedMap.mem_keys_iff.mpr hcontains) ?_
  exact Option.isNone_iff_eq_none.mpr (endpoint?_eq_none_iff.mpr hlacks)

/-! ### The queries of a build -/

/-- **The queries of a built API** are those of the selected endpoints, one endpoint after the
other. Of equal queries the first is kept, and of these the ones inside their window, each as
it is at the version. No queries are found just if the selection names an endpoint that does
not exist, of which the smallest name is reported, or else if a selected endpoint cannot make
its queries, of which the first is. -/
theorem queries_of_build (d : ApiDefinition) (s : Selection) :
    (∀ api, d.build s = .ok api → ∃ lists kept,
      List.Forall₂ (fun e list => e.queries d.registry = .ok list)
        (d.endpoints.filter s.keeps) lists ∧
      List.FirstOccurrences kept lists.flatten ∧
      List.Forall₂ (fun q x => x.request = q.request ∧ q.schema.at? s.version = some x.schema)
        (kept.filter (·.window.contains s.version)) api.queries) ∧
    ((∃ name, d.selectedQueries s = .error (.unknownEndpoint name)) ↔ ∃ name, d.Lacks s name) ∧
    (∀ name, d.selectedQueries s = .error (.unknownEndpoint name) →
      d.Lacks s name ∧ ∀ other, d.Lacks s other → (compare name other).isLE = true) ∧
    ((∀ name, ¬d.Lacks s name) → ∀ error, d.selectedQueries s = .error error ↔
      ∃ before e behind cause, d.endpoints.filter s.keeps = before ++ e :: behind ∧
        (∀ x ∈ before, ∃ queries, x.queries d.registry = .ok queries) ∧
        e.queries d.registry = .error cause ∧ error = .definition cause) := by
  refine ⟨fun api h => ?_, ?_, fun name h => ?_, fun h error => ?_⟩
  · obtain ⟨queries, hqueries, -, rfl⟩ := build_eq_ok h
    obtain ⟨-, lists, hlists, rfl⟩ := selectedQueries_eq_ok_iff.mp hqueries
    refine ⟨lists, _, hlists, List.firstOccurrences_eraseDups _,
      Query.forall₂_filterMap_at? fun q hq hwindow => ?_⟩
    obtain ⟨e, -, -, list, hlist, hmem⟩ := (mem_selectedQueries hqueries).mp hq
    exact Endpoint.exists_schema_of_contains hlist hmem hwindow
  · constructor
    · intro h
      obtain ⟨name, h⟩ := h
      exact ⟨name, (lacks_of_unknownEndpoint? (selectedQueries_eq_unknownEndpoint_iff.mp h)).1⟩
    · intro h
      obtain ⟨name, hlacks⟩ := h
      have hfound : d.unknownEndpoint? s ≠ none := fun hnone =>
        knows_iff.mp (unknownEndpoint?_eq_none_iff.mp hnone) name hlacks
      obtain ⟨found, hfound⟩ := Option.ne_none_iff_exists'.mp hfound
      exact ⟨found, selectedQueries_of_unknown hfound⟩
  · exact lacks_of_unknownEndpoint? (selectedQueries_eq_unknownEndpoint_iff.mp h)
  · exact selectedQueries_eq_error_iff (knows_iff.mpr h)

end ApiDefinition

/-- The forest has three endpoints and two queries, since one endpoint stands there twice. A
selection with two unknown names fails with the smaller one. -/
theorem NodeTree.queries_of_build_forest :
    (∃ (api : Api) (lists : List (List Query)) (kept : List Query),
      forest.build (.all .classic) = .ok api ∧ lists.length = 3 ∧
      List.FirstOccurrences kept lists.flatten ∧
      (kept.filter (·.window.contains .classic)).length = 2) ∧
    ∃ name, forest.selectedQueries
        ⟨.classic, some (.ofList ["Zebras", "Nodes", "Aardvarks"]), false⟩ =
          .error (.unknownEndpoint name) ∧
      (compare name "Zebras").isLE = true ∧ (compare name "Aardvarks").isLE = true := by
  constructor
  · obtain ⟨api, h⟩ := Except.isOk_iff_exists.mp
      (show (forest.build (.all .classic)).isOk = true by decide +kernel)
    have hcount : (forest.build (.all .classic)).toOption.map (·.queries.length) = some 2 := by
      decide +kernel
    rw [h] at hcount
    obtain ⟨lists, kept, hlists, hfirst, hshown⟩ :=
      (ApiDefinition.queries_of_build forest (.all .classic)).1 api h
    exact ⟨api, lists, kept, h, hlists.length_eq.symm, hfirst,
      hshown.length_eq.trans (Option.some.inj hcount)⟩
  · obtain ⟨-, hunknown, hsmallest, -⟩ := ApiDefinition.queries_of_build forest
      ⟨.classic, some (.ofList ["Zebras", "Nodes", "Aardvarks"]), false⟩
    have hlacks : ∀ name ∈ ["Zebras", "Aardvarks"], forest.Lacks
        ⟨.classic, some (.ofList ["Zebras", "Nodes", "Aardvarks"]), false⟩ name := by
      intro name hname
      refine ⟨⟨_, rfl, ?_⟩, ?_⟩
      · revert name
        decide
      · revert name
        decide
    obtain ⟨name, h⟩ := hunknown.mpr ⟨_, hlacks "Zebras" (by decide)⟩
    exact ⟨name, h, (hsmallest name h).2 _ (hlacks _ (by decide)),
      (hsmallest name h).2 _ (hlacks _ (by decide))⟩

end ApiChronicle
