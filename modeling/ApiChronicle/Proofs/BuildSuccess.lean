import ApiChronicle.Proofs.BuildRoots

/-! # ApiChronicle.Proofs.BuildSuccess

**When the build of an API succeeds**, and what its fault says otherwise.

A build makes the queries of the selected endpoints and then walks from their
mentions. The first step fails only in the endpoints themselves. The second shares
its marks among all queries, so two things have to be excluded: that a name which
cannot be resolved is skipped because something has marked it before, and that a
cycle is taken for a fault. Both follow from `Resolves.isOk_iff`, which compares
the walk with the reachable names and not with the order it meets them in.
-/

namespace ApiChronicle

/-- The condition on a name that a fault says is broken, and that it is broken. -/
inductive Registry.Broken (r : Registry) (v : Version) (n : QualifiedName) : ResolveError → Prop
  | missing (undeclared : r.get? n = none) : Broken r v n (.missing n)
  | unavailable {history} (registered : r.get? n = some history)
      (absent : history.at? v = none) : Broken r v n (.unavailable n v)
  | notAlias {d} (named : n.isAlias = true) (declared : r.Declares v n d)
      (kind : d.kind ≠ .alias) : Broken r v n (.notAlias n d.kind)

/-- A walk over well-kinded mentions fails at a reachable name with a broken condition. -/
theorem Registry.Resolves.exists_broken {r : Registry} {v : Version} {ms : List Mention}
    {p : Pass} {o : Outcome} {e : ResolveError} (h : r.Resolves v ms p o) (hr : r.WellKinded)
    (hms : ∀ m ∈ ms, m.WellKinded) (herr : o.result = .error e) :
    ∃ n, r.Reachable v (mentioned ms) n ∧ r.Broken v n e := by
  obtain ⟨n, hreach, hblames⟩ := h.blames herr
  refine ⟨n, hreach, ?_⟩
  cases e with
  | missing n' =>
      obtain ⟨rfl, hnone⟩ := hblames
      exact .missing hnone
  | unavailable n' w =>
      obtain ⟨rfl, rfl, history, hget, hnone⟩ := hblames
      exact .unavailable hget hnone
  | notAlias n' kind =>
      obtain ⟨rfl, hne, d, hd, rfl⟩ := hblames
      exact .notAlias (h.isAlias_of_notAlias hr hms herr) hd hne

namespace ApiDefinition

variable {d : ApiDefinition} {s : Selection}

/-- With its queries at hand, a build succeeds exactly if all reachable names are
available. -/
theorem exists_build_iff_available (hk : d.WellKinded) {queries : List Query}
    (h : d.selectedQueries s = .ok queries) :
    (∃ api, d.build s = .ok api) ↔ ∀ n, d.Reachable s n → d.registry.Available s.version n := by
  rw [exists_build_iff h, (d.outcome_resolves s queries).isOk_iff hk.registry
    (wellKinded_rootMentions hk h), mentioned_rootMentions h]
  rfl

/-- **A build fails only at a reachable name that cannot be resolved.** If every
selected endpoint can make its queries, the build succeeds exactly if every name the
selection leads to is declared at the version, and as an alias if it is the name of
one; how the references run does not matter. Otherwise the fault names such a name and
the condition that it breaks. -/
theorem build_succeeds_iff_available (hk : d.WellKinded) (hs : d.Knows s)
    (hqueries : ∀ e ∈ d.endpoints, s.keeps e = true →
      ∃ queries, e.queries d.registry = .ok queries) :
    ((∃ api, d.build s = .ok api) ↔
      ∀ n, d.Reachable s n → d.registry.Available s.version n) ∧
    ∀ error, d.build s = .error error →
      ∃ n e, d.Reachable s n ∧ error = .resolve e ∧ d.registry.Broken s.version n e := by
  obtain ⟨queries, h⟩ := exists_selectedQueries hs hqueries
  refine ⟨exists_build_iff_available hk h, fun error herror => ?_⟩
  obtain ⟨e, herr, rfl⟩ := build_eq_error h herror
  obtain ⟨n, hreach, hbroken⟩ :=
    (d.outcome_resolves s queries).exists_broken hk.registry (wellKinded_rootMentions hk h) herr
  rw [mentioned_rootMentions h] at hreach
  exact ⟨n, e, hreach, rfl, hbroken⟩

/-- The cycle of the nodes is no fault, and without their IDs a fault is named. -/
theorem build_succeeds_iff_available_nodeTree :
    (∀ n, NodeTree.definition.Reachable ⟨.classic, none, true⟩ n →
      NodeTree.definition.registry.Available .classic n) ∧
    ∃ n e, NodeTree.withoutIds.Reachable ⟨.classic, none, true⟩ n ∧
      NodeTree.withoutIds.build ⟨.classic, none, true⟩ = .error (.resolve e) ∧
      NodeTree.withoutIds.registry.Broken .classic n e := by
  constructor
  · have hqueries := NodeTree.exists_build.elim fun _ h => exists_queries_of_build h
    have hk : NodeTree.definition.WellKinded := by decide
    have hs : NodeTree.definition.Knows ⟨.classic, none, true⟩ := knows_of_no_names _
    exact (build_succeeds_iff_available hk hs hqueries).1.mp NodeTree.exists_build
  · have hk : NodeTree.withoutIds.WellKinded := by decide
    have hqueries : ∀ e ∈ NodeTree.withoutIds.endpoints,
        (⟨.classic, none, true⟩ : Selection).keeps e = true →
          ∃ queries, e.queries NodeTree.withoutIds.registry = .ok queries := by
      intro e he _
      obtain rfl := List.mem_singleton.mp he
      exact Except.isOk_iff_exists.mp (by decide +kernel)
    cases herror : NodeTree.withoutIds.build ⟨.classic, none, true⟩ with
    | ok api =>
        have hfails : (NodeTree.withoutIds.build ⟨.classic, none, true⟩).isOk = false := by decide +kernel
        rw [herror] at hfails
        cases hfails
    | error error =>
        obtain ⟨n, e, hreach, rfl, hbroken⟩ :=
          (build_succeeds_iff_available hk (knows_of_no_names _) hqueries).2 error herror
        exact ⟨n, e, hreach, rfl, hbroken⟩

end ApiDefinition

end ApiChronicle
