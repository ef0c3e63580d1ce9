import ApiChronicle.Proofs.AuditTrials
import ApiChronicle.Proofs.BuildClosure

/-! # ApiChronicle.Proofs.AuditAgreement

**An audit agrees with the builds** of the API it is about.

The two resolve in different ways. An audit starts anew for each query and each
auxiliary type, at each version, and does not drop repeated queries; a build walks
once from all of them and skips what it has met. They are compared through the
reachable names: success and reports of either are statements about those
(`Resolves.isOk_iff`, `Resolves.reported_iff_reachable`), and what a union of roots
leads to is the union of what each root leads to.
-/

namespace ApiChronicle

namespace Audit

variable {d : ApiDefinition} {v : Version} {ms : List Mention} {o : Outcome} {n : QualifiedName}

/-! ### Trials and the whole API -/

/-- What a trial leads to, the whole API leads to. -/
theorem Trial.reachable (h : Trial d v ms o)
    (hn : d.registry.Reachable v (Registry.mentioned ms) n) :
    d.Reachable ⟨v, none, true⟩ n :=
  hn.mono fun _ ha => isRoot_iff_trial.mpr ⟨ms, o, h, ha⟩

/-- What the whole API leads to, some trial leads to. -/
theorem exists_trial_of_reachable (h : d.Reachable ⟨v, none, true⟩ n) :
    ∃ ms o, Trial d v ms o ∧ d.registry.Reachable v (Registry.mentioned ms) n := by
  obtain ⟨a, hroot, hn⟩ := Registry.Reachable.exists_singleton h
  obtain ⟨ms, o, htrial, ha⟩ := isRoot_iff_trial.mp hroot
  exact ⟨ms, o, htrial, hn.mono (Set.singleton_subset_iff.mpr ha)⟩

/-- Every selection leads to a part of what the whole API leads to. -/
theorem reachable_all {s : Selection} (h : d.Reachable s n) :
    d.Reachable ⟨s.version, none, true⟩ n := by
  refine Registry.Reachable.mono (fun a ha => ?_) h
  cases ha with
  | query offered window uses names =>
      obtain ⟨e, he, -, hoffers⟩ := offered
      exact .query ⟨e, he, rfl, hoffers⟩ window uses names
  | auxiliary _ member declared => exact .auxiliary rfl member declared

/-- All trials of a version succeed exactly if everything the API leads to there is
available. -/
theorem trials_ok_iff (hk : d.WellKinded) :
    (∀ ms o, Trial d v ms o → o.result = .ok ()) ↔
      ∀ n, d.Reachable ⟨v, none, true⟩ n → d.registry.Available v n := by
  constructor
  · intro hok n hn
    obtain ⟨ms, o, htrial, hn⟩ := exists_trial_of_reachable hn
    exact (htrial.resolves.isOk_iff hk.registry (htrial.wellKinded hk)).mp (hok ms o htrial) n hn
  · intro havailable ms o htrial
    rw [htrial.resolves.isOk_iff hk.registry (htrial.wellKinded hk)]
    exact fun n hn => havailable n (htrial.reachable hn)

/-! ### Faults and builds -/

/-- Without faults, every selection of known endpoints can be built. -/
theorem exists_build_of_faults_eq_nil (hk : d.WellKinded) (h : faults d = []) {s : Selection}
    (hs : d.Knows s) : ∃ api, d.build s = .ok api := by
  obtain ⟨hqueries, htrials⟩ := faults_eq_nil_iff.mp h
  obtain ⟨queries, hselected⟩ :=
    ApiDefinition.exists_selectedQueries hs fun e he _ => hqueries e he
  rw [ApiDefinition.exists_build_iff_available hk hselected]
  intro n hn
  exact (trials_ok_iff hk).mp (htrials s.version) n (reachable_all hn)

/-- An audit finds no faults exactly if the whole API can be built at every version. -/
theorem faults_eq_nil_iff_builds (hk : d.WellKinded) :
    faults d = [] ↔ ∀ v, ∃ api, d.build ⟨v, none, true⟩ = .ok api := by
  refine ⟨fun h v => exists_build_of_faults_eq_nil hk h d.knows_of_no_names, fun h => ?_⟩
  refine faults_eq_nil_iff.mpr ⟨fun e he => ?_, fun v => (trials_ok_iff hk).mpr ?_⟩
  · -- which endpoints can make their queries depends on no version
    obtain ⟨api, hbuild⟩ := h .classic
    exact ApiDefinition.exists_queries_of_build hbuild e he rfl
  · obtain ⟨api, hbuild⟩ := h v
    obtain ⟨queries, hqueries, -⟩ := ApiDefinition.build_eq_ok hbuild
    exact (ApiDefinition.exists_build_iff_available hk hqueries).mp ⟨api, hbuild⟩

/-! ### The verdict -/

theorem unreachableTypes_eq_map (d : ApiDefinition) (strict : Bool) :
    unreachableTypes d strict =
      (d.registry.types.keys.filter (· ∉ reachedNames d)).map fun name =>
        ⟨if strict then .error else .warning, name.text, .unreachable⟩ := rfl

/-- A lenient audit passes exactly if it finds no fault. -/
theorem isOk_iff_faults_eq_nil : (ofDefinition d false).isOk = true ↔ faults d = [] := by
  unfold isOk count
  rw [decide_eq_true_iff, List.countP_eq_zero, diagnostics_ofDefinition]
  constructor
  · intro h
    refine List.eq_nil_iff_forall_not_mem.mpr fun x hx => ?_
    have hx' := h x (List.mem_append_left _ hx)
    rw [(of_mem_faults hx).1] at hx'
    exact hx' (decide_eq_true rfl)
  · intro h x hx
    rw [h, List.nil_append, unreachableTypes_eq_map] at hx
    obtain ⟨name, -, rfl⟩ := List.mem_map.mp hx
    simp

/-- **An audit passes exactly if every version can be built**, with all endpoints and
with the auxiliary types. It then also covers every smaller part of the API. -/
theorem isOk_iff_builds (hk : d.WellKinded) :
    ((ofDefinition d false).isOk = true ↔ ∀ v, ∃ api, d.build ⟨v, none, true⟩ = .ok api) ∧
    ((ofDefinition d false).isOk = true → ∀ s, d.Knows s → ∃ api, d.build s = .ok api) := by
  rw [isOk_iff_faults_eq_nil]
  exact ⟨faults_eq_nil_iff_builds hk, fun h s hs => exists_build_of_faults_eq_nil hk h hs⟩

/-- The tree of nodes passes, so it can be built without its auxiliary type. -/
theorem isOk_iff_builds_nodeTree :
    (ofDefinition NodeTree.definition false).isOk = true ∧
      ∃ api, NodeTree.definition.build ⟨.classic, some (.ofList ["Nodes"]), false⟩ = .ok api := by
  have hk : NodeTree.definition.WellKinded := by decide
  have hok : (ofDefinition NodeTree.definition false).isOk = true := by decide +kernel
  have hs : NodeTree.definition.Knows ⟨.classic, some (.ofList ["Nodes"]), false⟩ := by
    intro names hnames name hname
    obtain rfl := Option.some.inj hnames
    have hkeys : (SortedSet.ofList ["Nodes"]).keys = ["Nodes"] := by decide
    have hmem := SortedMap.mem_keys_iff.mpr hname
    rw [hkeys] at hmem
    exact ⟨_, List.mem_singleton_self _, (List.mem_singleton.mp hmem).symm⟩
  exact ⟨hok, (isOk_iff_builds hk).2 hok _ hs⟩

/-! ### Unreachable types -/

/-- Without faults, the reached names are those that the builds collect. -/
theorem mem_reachedNames_iff_build (hk : d.WellKinded) (h : faults d = []) :
    n ∈ reachedNames d ↔
      ∃ v api, d.build ⟨v, none, true⟩ = .ok api ∧ api.types.contains n = true := by
  obtain ⟨-, htrials⟩ := faults_eq_nil_iff.mp h
  rw [mem_reachedNames h]
  refine exists_congr fun v => ?_
  constructor
  · intro hn
    obtain ⟨ms, o, htrial, hrep⟩ := hn
    have hn := (htrial.resolves.reported_iff_reachable (htrials v ms o htrial)).mp hrep
    obtain ⟨api, hbuild⟩ := exists_build_of_faults_eq_nil hk h d.knows_of_no_names
    exact ⟨api, hbuild, (ApiDefinition.contains_types_of_build hbuild).mpr (htrial.reachable hn)⟩
  · intro hbuilt
    obtain ⟨api, hbuild, hn⟩ := hbuilt
    obtain ⟨ms, o, htrial, hn⟩ :=
      exists_trial_of_reachable ((ApiDefinition.contains_types_of_build hbuild).mp hn)
    exact ⟨ms, o, htrial,
      (htrial.resolves.reported_iff_reachable (htrials v ms o htrial)).mpr hn⟩

/-- Faults are the diagnostics of the codes `E001` and `E002`. -/
theorem faults_eq_nil_of_codes {strict : Bool}
    (h : ∀ x ∈ (ofDefinition d strict).diagnostics,
      x.finding.code ≠ "E001" ∧ x.finding.code ≠ "E002") : faults d = [] := by
  refine List.eq_nil_iff_forall_not_mem.mpr fun x hx => ?_
  rw [diagnostics_ofDefinition] at h
  obtain ⟨hmade, hresolved⟩ := h x (List.mem_append_left _ hx)
  rcases (of_mem_faults hx).2 with hcode | hcode
  · exact hmade hcode
  · exact hresolved hcode

/-- Only types that nothing leads to are reported under `W001`. -/
theorem filter_code_diagnostics (d : ApiDefinition) (strict : Bool) :
    (ofDefinition d strict).diagnostics.filter (fun x => x.finding.code = "W001") =
      unreachableTypes d strict := by
  rw [diagnostics_ofDefinition, List.filter_append]
  have hfaults : (faults d).filter (fun x => x.finding.code = "W001") = [] := by
    refine List.filter_eq_nil_iff.mpr fun x hx => ?_
    rcases (of_mem_faults hx).2 with hcode | hcode
    · rw [hcode]
      decide
    · rw [hcode]
      decide
  have hunreachable :
      (unreachableTypes d strict).filter (fun x => x.finding.code = "W001") =
        unreachableTypes d strict := by
    refine List.filter_eq_self.mpr fun x hx => ?_
    rw [unreachableTypes_eq_map] at hx
    obtain ⟨name, -, rfl⟩ := List.mem_map.mp hx
    rfl
  rw [hfaults, hunreachable, List.nil_append]

/-- **The warnings of an audit are about what no build collects.** If an audit has
found no fault, its diagnostics under `W001` are one for each registered type that is
in the built API of no version, in the order of the registry. -/
theorem warnings_iff_unbuilt (hk : d.WellKinded) {strict : Bool}
    (hcodes : ∀ x ∈ (ofDefinition d strict).diagnostics,
      x.finding.code ≠ "E001" ∧ x.finding.code ≠ "E002") :
    ∃ names : List QualifiedName,
      names.Sublist d.registry.types.keys ∧ names.Nodup ∧
      (∀ n, n ∈ names ↔ d.registry.contains n = true ∧
        ¬∃ v api, d.build ⟨v, none, true⟩ = .ok api ∧ api.types.contains n = true) ∧
      (ofDefinition d strict).diagnostics.filter (fun x => x.finding.code = "W001") =
        names.map fun n => ⟨if strict then .error else .warning, n.text, .unreachable⟩ := by
  have hfaults := faults_eq_nil_of_codes hcodes
  have hsub := List.filter_sublist (p := (· ∉ reachedNames d)) (l := d.registry.types.keys)
  refine ⟨_, hsub, hsub.nodup (SortedMap.keys_nodup _), fun n => ?_, ?_⟩
  · rw [List.mem_filter, SortedMap.mem_keys_iff, decide_eq_true_iff,
      mem_reachedNames_iff_build hk hfaults]
    rfl
  · rw [filter_code_diagnostics, unreachableTypes_eq_map]

/-- The audit of the tree of nodes warns of the orphan alone. -/
theorem warnings_iff_unbuilt_nodeTree :
    ∃ n, NodeTree.definition.registry.contains n = true ∧
      (¬∃ v api, NodeTree.definition.build ⟨v, none, true⟩ = .ok api ∧
        api.types.contains n = true) ∧
      ((ofDefinition NodeTree.definition false).diagnostics.filter
        fun x => x.finding.code = "W001") = [⟨.warning, n.text, .unreachable⟩] := by
  have hk : NodeTree.definition.WellKinded := by decide
  have hdiagnostics : (ofDefinition NodeTree.definition false).diagnostics =
      [⟨.warning, NodeTree.orphan.text, .unreachable⟩] := by decide +kernel
  have hcodes : ∀ x ∈ (ofDefinition NodeTree.definition false).diagnostics,
      x.finding.code ≠ "E001" ∧ x.finding.code ≠ "E002" := by
    rw [hdiagnostics]
    intro x hx
    obtain rfl := List.mem_singleton.mp hx
    decide
  obtain ⟨names, -, -, hnames, hwarnings⟩ := warnings_iff_unbuilt hk hcodes
  have hlength : names.length = 1 := by
    have h := congrArg List.length hwarnings
    rw [hdiagnostics, List.length_map] at h
    exact h.symm
  obtain ⟨n, rfl⟩ := List.length_eq_one_iff.mp hlength
  obtain ⟨hregistered, hunbuilt⟩ := (hnames n).mp (List.mem_singleton_self n)
  exact ⟨n, hregistered, hunbuilt, hwarnings⟩

end Audit

end ApiChronicle
