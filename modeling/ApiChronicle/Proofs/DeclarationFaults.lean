import ApiChronicle.Proofs.MemberOrder
import Mathlib.Data.List.Duplicate

/-! # ApiChronicle.Proofs.DeclarationFaults

**What is wrong with a declaration that fails.**

A record or conditional goes through three checks (`MemberFault`): the dates of its members
make windows, no two members of one key exist at one version, and its name is free. What
happens in between shows none of this. Members clash inside one snapshot, which speaks for a
whole run of versions, and the draft that the snapshots are added to has checks of its own.

A run shows the members that are live at each of its versions, so it is refused exactly if
they clash at one of them (`RefusesClashes`). The runs come in order, hence the first one that
is refused begins with the earliest clash (`clash_of_historyOf_eq_error`). And they lie one
after the other, so that the draft takes every one of them: a history fails only where one of
its declarations does (`exists_of_historyOf_eq_error`).

The registry is changed in place, and only behind the last check. What a declaration leaves
when it fails is the registry it was given (`FailsExactly.unchanged`).
-/

namespace ApiChronicle

open Window (Successive)

/-! ### Snapshots that fail -/

section Snapshot

variable {α : Type} {key : α → String} {members : List α}

theorem contains_snapshot {m : SortedMap String α} (h : snapshot key members = .ok m)
    {k : String} : m.contains k = true ↔ k ∈ members.map key := by
  rw [SortedMap.contains_iff_exists, List.mem_map]
  exact exists_congr fun x => get?_of_snapshot h

/-- Members that can be collected by key have different keys. -/
theorem nodup_of_snapshot {m : SortedMap String α} (h : snapshot key members = .ok m) :
    (members.map key).Nodup := by
  induction members using List.reverseRecOn generalizing m with
  | nil => exact List.nodup_nil
  | append_singleton members x ih =>
      obtain ⟨before, hbefore, hstep⟩ := List.foldlM_concat_eq_ok_iff.mp h
      split at hstep
      · cases hstep
      next hfree =>
      rw [contains_snapshot hbefore] at hfree
      rw [List.map_append, List.nodup_append_comm]
      exact List.nodup_cons.mpr ⟨hfree, ih hbefore⟩

/-- A key that is complained about is the key of two members. -/
theorem duplicate_of_snapshot {k : String} (h : snapshot key members = .error k) :
    (members.map key).Duplicate k := by
  obtain ⟨before, x, behind, m, rfl, hbefore, hstep⟩ := List.exists_of_foldlM_eq_error h
  split at hstep
  · next htaken =>
    obtain rfl := Except.error.inj hstep
    have hcount := List.count_pos_iff.mpr ((contains_snapshot hbefore).mp htaken)
    rw [List.duplicate_iff_two_le_count, List.map_append, List.map_cons, List.count_append,
      List.count_cons_self]
    omega
  · cases hstep

end Snapshot

/-! ### Bounds that make no window -/

namespace Dated

variable {α : Type}

/-- The dates of a member, whether or not they make a window. -/
def bounds (d : Dated α) : Window := ⟨d.since.getD .classic, d.stop⟩

end Dated

namespace Scope

/-- The windows with the given bounds, or the first fault among them. -/
def checked (bounds : List Window) : Except DefinitionError (List Window) :=
  (bounds.mapM fun w => Window.ofBounds w.since w.stop).mapError .timeline

theorem windowsOf_eq {α : Type} (members : List (Dated α)) :
    windowsOf members = checked (members.map Dated.bounds) := by
  rw [windowsOf, checked, List.mapM_map]
  rfl

theorem checked_append (bounds bounds' : List Window) :
    checked (bounds ++ bounds') =
      checked bounds >>= fun windows =>
        checked bounds' >>= fun windows' => pure (windows ++ windows') := by
  rw [checked, checked, checked, List.mapM_append]
  cases bounds.mapM fun w => Window.ofBounds w.since w.stop with
  | error cause => rfl
  | ok windows => cases bounds'.mapM fun w => Window.ofBounds w.since w.stop <;> rfl

theorem checked_of_valid {bounds : List Window} (h : ∀ w ∈ bounds, w.Valid) :
    checked bounds = .ok bounds := by
  refine Except.mapError_eq_ok_iff.mpr (List.mapM_eq_ok_iff.mpr (List.forall₂_same.mpr ?_))
  exact fun w hw => Window.ofBounds_of_valid (h w hw)

/-- The complaint is about the first of the bounds that make no window. -/
theorem checked_of_find? {bounds : List Window} {w : Window}
    (h : bounds.find? (¬·.Valid) = some w) :
    ∃ stop, w = ⟨w.since, some stop⟩ ∧
      checked bounds = .error (.timeline (.malformed w.since stop)) := by
  obtain ⟨hinvalid, before, behind, rfl, hbefore⟩ := List.find?_eq_some_iff_append.mp h
  have hvalid : ∀ u ∈ before, u.Valid := fun u hu => by simpa using hbefore u hu
  obtain ⟨since, stop⟩ := w
  cases stop with
  | none => simp [Window.Valid] at hinvalid
  | some stop =>
      have hlt : ¬since < stop := by simpa [Window.Valid] using hinvalid
      refine ⟨stop, rfl, ?_⟩
      rw [checked_append, checked_of_valid hvalid, checked, List.mapM_cons, Window.ofBounds,
        if_neg hlt]
      rfl

/-- The history of a type whose members have these dates. -/
def historyWithin (bounds : List Window) (declare : Run → Except DefinitionError Declaration) :
    Except DefinitionError History := do
  let windows ← checked bounds
  historyOf (liveRuns windows) declare

/-- Members have a history as their runs have it, unless some of their dates make no window. -/
theorem historyWithin_cases (bounds : List Window)
    (declare : Run → Except DefinitionError Declaration) :
    (∃ since stop, bounds.find? (¬·.Valid) = some ⟨since, some stop⟩ ∧
      historyWithin bounds declare = .error (.timeline (.malformed since stop))) ∨
    (∀ w ∈ bounds, w.Valid) ∧
      historyWithin bounds declare = historyOf (liveRuns bounds) declare := by
  cases hfirst : bounds.find? (¬·.Valid) with
  | some w =>
      obtain ⟨stop, hw, hchecked⟩ := checked_of_find? hfirst
      refine Or.inl ⟨w.since, stop, congrArg some hw, ?_⟩
      rw [historyWithin, hchecked]
      rfl
  | none =>
      have hvalid : ∀ w ∈ bounds, w.Valid := by simpa using hfirst
      refine Or.inr ⟨hvalid, ?_⟩
      rw [historyWithin, checked_of_valid hvalid]
      rfl

/-! ### Members that clash -/

section Clash

variable {α : Type} {key : α → String} {members : List (Dated α)} {windows : List Window}
  {places : List Nat} {name : QualifiedName} {window : Window} {v : Version} {k : String}

/-- Two members of one key exist at a version. -/
def Clash (key : α → String) (members : List (Dated α)) (v : Version) (k : String) : Prop :=
  ∃ d d', [d, d'].Sublist members ∧
    (d.LiveAt v ∧ key d.member = k) ∧ d'.LiveAt v ∧ key d'.member = k

theorem clash_iff_duplicate :
    Clash key members v k ↔
      ((members.filter (·.LiveAt v)).map fun d => key d.member).Duplicate k := by
  rw [List.duplicate_iff_sublist, List.sublist_map_iff]
  constructor
  · intro h
    obtain ⟨d, d', hsub, ⟨hlive, hk⟩, hlive', hk'⟩ := h
    refine ⟨[d, d'], ?_, by simp [hk, hk']⟩
    have hkept := hsub.filter (·.LiveAt v)
    rwa [List.filter_eq_self.mpr (by simp [hlive, hlive'])] at hkept
  · intro h
    obtain ⟨pair, hsub, hkeys⟩ := h
    obtain ⟨d, rest, rfl, hk, hrest⟩ := List.map_eq_cons_iff.mp hkeys.symm
    obtain ⟨d', rest', rfl, hk', hnil⟩ := List.map_eq_cons_iff.mp hrest
    obtain rfl := List.map_eq_nil_iff.mp hnil
    have hlive : ∀ x ∈ [d, d'], x.LiveAt v := fun x hx => by
      simpa using (List.mem_filter.mp (hsub.subset hx)).2
    exact ⟨d, d', hsub.trans List.filter_sublist, ⟨hlive d (by simp), hk⟩,
      hlive d' (by simp), hk'⟩

instance (key : α → String) (members : List (Dated α)) (v : Version) (k : String) :
    Decidable (Clash key members v k) :=
  decidable_of_iff _ clash_iff_duplicate.symm

/-- Where members clash, one is live. -/
theorem Clash.exists_liveAt (h : Clash key members v k) : ∃ d ∈ members, d.LiveAt v := by
  obtain ⟨d, d', hsub, ⟨hlive, -⟩, -⟩ := h
  exact ⟨d, hsub.subset List.mem_cons_self, hlive⟩

/-- The keys that are collected at the places of the live members are theirs. -/
theorem keys_perm_live (hwindows : windowsOf members = .ok windows)
    (hplaces : places.Perm (liveAt windows v)) :
    ((places.filterMap fun i => members[i]?.map Dated.undated).map fun d => key d.member).Perm
      ((members.filter (·.LiveAt v)).map fun d => key d.member) := by
  have hkeys := (filterMap_perm_liveAt hwindows hplaces).map fun d => key d.member
  rw [List.map_filterMap] at hkeys ⊢
  simp only [Option.map_map]
  exact hkeys

/-- Live members cannot be collected by key if they clash, -/
theorem clash_of_membersOf_eq_error (hwindows : windowsOf members = .ok windows)
    (hplaces : places.Perm (liveAt windows v)) {e : DefinitionError}
    (h : membersOf name window key members places = .error e) :
    ∃ k, Clash key members v k ∧ e = .duplicateMember name k window.since := by
  obtain ⟨k, hk, rfl⟩ := Except.mapError_eq_error_iff.mp h
  refine ⟨k, clash_iff_duplicate.mpr (List.duplicate_iff_two_le_count.mpr ?_), rfl⟩
  rw [← (keys_perm_live hwindows hplaces).count_eq]
  exact List.duplicate_iff_two_le_count.mp (duplicate_of_snapshot hk)

/-- and only then. -/
theorem not_clash_of_membersOf (hwindows : windowsOf members = .ok windows)
    (hplaces : places.Perm (liveAt windows v)) {shown : SortedMap String (Dated α)}
    (h : membersOf name window key members places = .ok shown) : ¬Clash key members v k := by
  have hnodup := nodup_of_snapshot (Except.mapError_eq_ok_iff.mp h)
  rw [(keys_perm_live hwindows hplaces).nodup_iff] at hnodup
  exact fun hclash => (clash_iff_duplicate.mp hclash).not_nodup hnodup

end Clash

/-! ### Histories that fail -/

section HistoryOf

variable {runs : List Run} {declare : Run → Except DefinitionError Declaration}
  {name : QualifiedName} {Clashes : Version → String → Prop} {e : DefinitionError}

/-- A history fails where one of its declarations does; it has no faults of its own. -/
theorem exists_of_historyOf_eq_error (hruns : Successive (runs.map Run.window)) (hne : runs ≠ [])
    (h : historyOf runs declare = .error e) :
    ∃ before run behind entries, runs = before ++ run :: behind ∧
      Entered declare before entries ∧ declare run = .error e := by
  rcases Except.bind_eq_error_iff.mp h with h | ⟨draft, hdraft, h⟩
  · obtain ⟨before, run, behind, draft, rfl, hbefore, hstep⟩ := List.exists_of_foldlM_eq_error h
    rw [List.map_append, List.map_cons, List.append_cons] at hruns
    have hupto := hruns.sublist (List.sublist_append_left _ _)
    have hentered := entered_of_foldlM (hupto.sublist (List.sublist_append_left _ _)) hbefore
    refine ⟨before, run, behind, draft.entries, rfl, hentered, ?_⟩
    rcases Except.bind_eq_error_iff.mp hstep with hdeclare | ⟨declaration, -, hadd⟩
    · exact hdeclare
    · rw [hentered.windows_eq] at hupto
      rw [Timeline.Draft.add_behind declaration hupto] at hadd
      cases hadd
  · -- a draft with an entry can be finished
    have hentered := entered_of_foldlM hruns hdraft
    obtain ⟨entries⟩ := draft
    cases hentered with
    | nil => exact absurd rfl hne
    | cons _ _ => cases h

/-- Snapshots are refused for a clash where their run begins, and those that are not refused
show that there is no clash in their run. Every clash lies in a run. -/
structure RefusesClashes (name : QualifiedName) (Clashes : Version → String → Prop)
    (runs : List Run) (declare : Run → Except DefinitionError Declaration) : Prop where
  refused : ∀ run ∈ runs, ∀ e, declare run = .error e →
    ∃ k, Clashes run.window.since k ∧ e = .duplicateMember name k run.window.since
  accepted : ∀ run ∈ runs, ∀ d, declare run = .ok d →
    ∀ v k, run.window.contains v = true → ¬Clashes v k
  covered : ∀ v k, Clashes v k → ∃ run ∈ runs, run.window.contains v = true

/-- A history that fails does so for the earliest clash. -/
theorem RefusesClashes.clash_of_historyOf_eq_error
    (h : RefusesClashes name Clashes runs declare) (hruns : Successive (runs.map Run.window))
    (hne : runs ≠ []) (hfails : historyOf runs declare = .error e) :
    ∃ v k, e = .duplicateMember name k v ∧ Clashes v k ∧ ∀ u k', Clashes u k' → v ≤ u := by
  obtain ⟨before, run, behind, entries, rfl, hentered, hrun⟩ :=
    exists_of_historyOf_eq_error hruns hne hfails
  obtain ⟨k, hclash, rfl⟩ := h.refused run (by simp) e hrun
  refine ⟨run.window.since, k, rfl, hclash, fun u k' hclash' => ?_⟩
  obtain ⟨run', hrun', hu⟩ := h.covered u k' hclash'
  have hsorted := List.pairwise_map.mp hruns.sorted
  rcases List.mem_append.mp hrun' with hbefore | hlater
  · -- the runs before have been accepted
    obtain ⟨entry, -, hdeclare, -⟩ := List.exists_mem_of_forall₂ hentered hbefore
    exact absurd hclash' (h.accepted run' hrun' _ hdeclare u k' hu)
  · have hsince : run.window.since ≤ run'.window.since := by
      rcases List.mem_cons.mp hlater with rfl | hbehind
      · exact Nat.le_refl _
      · exact Nat.le_of_lt
          ((List.pairwise_cons.mp (List.pairwise_append.mp hsorted).2.1).1 run' hbehind)
    exact Nat.le_trans hsince (Window.contains_iff.mp hu).1

/-- A history that does not fail has no clash. -/
theorem RefusesClashes.not_clash_of_historyOf (h : RefusesClashes name Clashes runs declare)
    (hruns : Successive (runs.map Run.window)) {history : History}
    (hok : historyOf runs declare = .ok history) (v : Version) (k : String) : ¬Clashes v k := by
  intro hclash
  obtain ⟨run, hrun, hv⟩ := h.covered v k hclash
  obtain ⟨t, -, -, hentered⟩ := historyOf_eq_ok hruns hok
  obtain ⟨entry, -, hdeclare, -⟩ := List.exists_mem_of_forall₂ hentered hrun
  exact h.accepted run hrun _ hdeclare v k hv hclash

/-- Windows are cut into at least one run. -/
theorem liveRuns_ne_nil {windows : List Window} (h : ∀ w ∈ windows, w.Valid) :
    liveRuns windows ≠ [] := by
  have hlive : ∃ v, windows = [] ∨ ∃ w ∈ windows, w.contains v = true := by
    cases windows with
    | nil => exact ⟨.classic, Or.inl rfl⟩
    | cons w rest =>
        exact ⟨w.since, Or.inr ⟨w, List.mem_cons_self, (h w List.mem_cons_self).contains_since⟩⟩
  obtain ⟨v, hv⟩ := hlive
  obtain ⟨run, hrun, -⟩ := exists_liveRun_iff.mpr hv
  exact List.ne_nil_of_mem hrun

end HistoryOf

/-! ### Records and conditionals in their runs -/

section Snapshots

variable (name : QualifiedName) (description : String) {windows : List Window}

theorem recordHistory_eq (properties : List (Dated Property)) :
    recordHistory name properties description =
      historyWithin (properties.map Dated.bounds) (recordIn name properties description) := by
  rw [recordHistory, windowsOf_eq, historyWithin]

theorem conditionalHistory_eq (selector : Selector) (shared : List (Dated Property))
    (arms : List (Dated Interpretation)) :
    conditionalHistory name selector shared arms description =
      historyWithin (shared.map Dated.bounds ++ arms.map Dated.bounds)
        (conditionalIn name selector shared arms description) := by
  simp only [conditionalHistory, historyWithin, windowsOf_eq, checked_append, bind_assoc, pure_bind]

theorem recordIn_refusesClashes {properties : List (Dated Property)}
    (hwindows : windowsOf properties = .ok windows) :
    RefusesClashes name (Clash Property.serialName properties) (liveRuns windows)
      (recordIn name properties description) where
  refused run hrun e h := by
    rcases Except.bind_eq_error_iff.mp h with h | ⟨_, _, h⟩
    · rw [live_eq_of_mem_liveRuns hrun] at h
      exact clash_of_membersOf_eq_error hwindows (.refl _) h
    · cases h
  accepted run hrun d h v k hv := by
    obtain ⟨shown, hshown, -⟩ := Except.bind_eq_ok_iff.mp h
    rw [live_of_mem_liveRuns hrun hv] at hshown
    exact not_clash_of_membersOf hwindows (.refl _) hshown
  covered v k h :=
    exists_liveRun_iff.mpr (Or.inr ((exists_contains_iff hwindows).mpr h.exists_liveAt))

theorem conditionalIn_refusesClashes (selector : Selector) {shared : List (Dated Property)}
    {arms : List (Dated Interpretation)} {windows' : List Window}
    (hshared : windowsOf shared = .ok windows) (harms : windowsOf arms = .ok windows') :
    RefusesClashes name
      (fun v k => Clash Property.serialName shared v k ∨ Clash Interpretation.key arms v k)
      (liveRuns (windows ++ windows')) (conditionalIn name selector shared arms description) where
  refused run hrun e h := by
    rw [conditionalIn, List.partition_eq_filter_filter, live_eq_of_mem_liveRuns hrun,
      (windowsOf_eq_ok hshared).length_eq] at h
    rcases Except.bind_eq_error_iff.mp h with h | ⟨_, _, h⟩
    · obtain ⟨k, hclash, he⟩ :=
        clash_of_membersOf_eq_error hshared (places_append_left windows windows' _) h
      exact ⟨k, Or.inl hclash, he⟩
    rcases Except.bind_eq_error_iff.mp h with h | ⟨_, _, h⟩
    · obtain ⟨k, hclash, he⟩ :=
        clash_of_membersOf_eq_error harms (places_append_right windows windows' _) h
      exact ⟨k, Or.inr hclash, he⟩
    · cases h
  accepted run hrun d h v k hv := by
    obtain ⟨liveShared, liveArms, hliveShared, hliveArms, -⟩ := conditionalIn_eq_ok h
    rw [live_of_mem_liveRuns hrun hv, (windowsOf_eq_ok hshared).length_eq] at hliveShared hliveArms
    exact not_or.mpr
      ⟨not_clash_of_membersOf hshared (places_append_left windows windows' v) hliveShared,
        not_clash_of_membersOf harms (places_append_right windows windows' v) hliveArms⟩
  covered v k h := by
    have hlive : ∃ w ∈ windows ++ windows', w.contains v = true := by
      rcases h with h | h
      · obtain ⟨w, hw, hv⟩ := (exists_contains_iff hshared).mpr h.exists_liveAt
        exact ⟨w, List.mem_append_left _ hw, hv⟩
      · obtain ⟨w, hw, hv⟩ := (exists_contains_iff harms).mpr h.exists_liveAt
        exact ⟨w, List.mem_append_right _ hw, hv⟩
    exact exists_liveRun_iff.mpr (Or.inr hlive)

end Snapshots

/-! ### Faults of a declaration -/

/-- What can be wrong with a declaration of dated members, in the order in which it is looked
for. -/
inductive MemberFault (r : Registry) (name : QualifiedName) (bounds : List Window)
    (Clashes : Version → String → Prop) : DefinitionError → Prop
  /-- The dates of a member make no window; this is the first one. -/
  | malformed {since stop : Version} (first : bounds.find? (¬·.Valid) = some ⟨since, some stop⟩) :
      MemberFault r name bounds Clashes (.timeline (.malformed since stop))
  /-- Members clash, for the first time at this version. -/
  | clash {v : Version} {k : String} (valid : ∀ w ∈ bounds, w.Valid) (clash : Clashes v k)
      (earliest : ∀ u k', Clashes u k' → v ≤ u) :
      MemberFault r name bounds Clashes (.duplicateMember name k v)
  /-- The name is taken. -/
  | taken (valid : ∀ w ∈ bounds, w.Valid) (apart : ∀ v k, ¬Clashes v k)
      (taken : r.isTaken name = true) :
      MemberFault r name bounds Clashes (.duplicateDeclaration name)

/-- A declaration fails exactly if it has a fault, and with one it has. Then it leaves the
registry as it was, and otherwise the name is declared. -/
structure FailsExactly (r : Registry) (name : QualifiedName) (Fault : DefinitionError → Prop)
    (outcome : EStateM.Result DefinitionError Registry TypeUse) : Prop where
  fails_iff : (∃ e r', outcome = .error e r') ↔ ∃ e, Fault e
  fault : ∀ e r', outcome = .error e r' → Fault e
  unchanged : ∀ e r', outcome = .error e r' → r' = r
  declared : ∀ use r', outcome = .ok use r' →
    use = .declaration name ∧ ∃ history, (Registry.insert name history).run r = .ok () r'

section Outcome

variable {r r' : Registry} {name : QualifiedName} {bounds : List Window}
  {Clashes : Version → String → Prop} {declare : Run → Except DefinitionError Declaration}
  {history : History} {e : DefinitionError}

theorem register_eq_error_iff :
    (register name history).run r = .error e r' ↔
      r.isTaken name = true ∧ e = .duplicateDeclaration name ∧ r' = r := by
  rw [register_run]
  cases r.isTaken name <;> simp [eq_comm]

/-- What was declared had no fault. -/
theorem not_memberFault (hvalid : ∀ w ∈ bounds, w.Valid) (hapart : ∀ v k, ¬Clashes v k)
    (hfree : r.isTaken name = false) : ¬MemberFault r name bounds Clashes e := by
  intro h
  cases h with
  | malformed first =>
      have hinvalid := List.find?_some first
      exact of_decide_eq_true hinvalid (hvalid _ (List.mem_of_find?_eq_some first))
  | clash _ hclash _ => exact hapart _ _ hclash
  | taken _ _ taken => cases hfree.symm.trans taken

variable
  (h : (∀ w ∈ bounds, w.Valid) → RefusesClashes name Clashes (liveRuns bounds) declare)

include h

theorem memberFault_of_eq_error (hfails : historyWithin bounds declare = .error e) :
    MemberFault r name bounds Clashes e := by
  rcases historyWithin_cases bounds declare with ⟨since, stop, hfirst, heq⟩ | ⟨hvalid, heq⟩
  · obtain rfl := Except.error.inj (heq.symm.trans hfails)
    exact .malformed hfirst
  · obtain ⟨v, k, rfl, hclash, hearliest⟩ := (h hvalid).clash_of_historyOf_eq_error
      (successive_liveRuns bounds) (liveRuns_ne_nil hvalid) (heq.symm.trans hfails)
    exact .clash hvalid hclash hearliest

theorem faultless_of_eq_ok (hok : historyWithin bounds declare = .ok history) :
    (∀ w ∈ bounds, w.Valid) ∧ ∀ v k, ¬Clashes v k := by
  rcases historyWithin_cases bounds declare with ⟨_, _, -, heq⟩ | ⟨hvalid, heq⟩
  · cases heq.symm.trans hok
  · exact ⟨hvalid, (h hvalid).not_clash_of_historyOf (successive_liveRuns bounds)
      (heq.symm.trans hok)⟩

/-- A declaration whose snapshots are refused for clashes only fails with the faults of its
members, and if its name is taken. -/
theorem failsExactly_of_refusesClashes :
    FailsExactly r name (MemberFault r name bounds Clashes)
      ((ofExcept (historyWithin bounds declare) >>= register name).run r) := by
  have hfault : ∀ e r', (ofExcept (historyWithin bounds declare) >>= register name).run r =
      .error e r' → MemberFault r name bounds Clashes e ∧ r' = r := by
    intro e r' hfails
    rcases EStateM.ofExcept_bind_eq_error_iff.mp hfails with
      ⟨hfails, hleft⟩ | ⟨history, hok, hfails⟩
    · exact ⟨memberFault_of_eq_error h hfails, hleft⟩
    · obtain ⟨htaken, rfl, hleft⟩ := register_eq_error_iff.mp hfails
      obtain ⟨hvalid, hapart⟩ := faultless_of_eq_ok h hok
      exact ⟨.taken hvalid hapart htaken, hleft⟩
  have hdeclared : ∀ use r', (ofExcept (historyWithin bounds declare) >>= register name).run r =
      .ok use r' → ∃ history, historyWithin bounds declare = .ok history ∧
        (Registry.insert name history).run r = .ok () r' ∧ use = .declaration name := by
    intro use r' hok
    obtain ⟨history, hhistory, hregister⟩ := EStateM.ofExcept_bind_eq_ok_iff.mp hok
    exact ⟨history, hhistory, register_eq_ok hregister⟩
  refine ⟨⟨fun ⟨e, r', he⟩ => ⟨e, (hfault e r' he).1⟩, fun ⟨e, he⟩ => ?_⟩,
    fun e r' he => (hfault e r' he).1, fun e r' he => (hfault e r' he).2, fun use r' hok => ?_⟩
  · cases houtcome : (ofExcept (historyWithin bounds declare) >>= register name).run r with
    | error e r' => exact ⟨e, r', rfl⟩
    | ok use r' =>
        obtain ⟨history, hhistory, hinsert, -⟩ := hdeclared use r' houtcome
        obtain ⟨hvalid, hapart⟩ := faultless_of_eq_ok h hhistory
        exact absurd he
          (not_memberFault hvalid hapart (Registry.insert_eq_ok_iff.mp hinsert).1)
  · obtain ⟨history, -, hinsert, huse⟩ := hdeclared use r' hok
    exact ⟨huse, history, hinsert⟩

end Outcome

/-- **Declarations fail for three reasons only**, looked for one after the other, and change
nothing then. Of a record or conditional, the first member whose dates make no window is
complained about, a shared property before an interpretation; if all do, the earliest version
at which two properties of one serial name or two interpretations of one key exist, with a
key of such members; if there is none, the name if it is taken. The timeline that is made of
the snapshots has nothing to complain about: whatever they are, a history fails only where one
of them does. -/
theorem declaration_fails_exactly (s : Scope) (r : Registry) (spelling description : String) :
    (∀ properties : List (Dated Property),
      FailsExactly r (s.qualify spelling)
        (MemberFault r (s.qualify spelling) (properties.map Dated.bounds)
          (Clash Property.serialName properties))
        ((s.declareRecord spelling properties description).run r)) ∧
    (∀ (selector : Selector) (shared : List (Dated Property))
        (arms : List (Dated Interpretation)),
      FailsExactly r (s.qualify spelling)
        (MemberFault r (s.qualify spelling) (shared.map Dated.bounds ++ arms.map Dated.bounds)
          fun v k => Clash Property.serialName shared v k ∨ Clash Interpretation.key arms v k)
        ((s.declareConditional spelling selector shared arms description).run r)) ∧
    ∀ windows : List Window, (∀ w ∈ windows, w.Valid) →
      ∀ (declare : Run → Except DefinitionError Declaration) (e : DefinitionError),
        historyOf (liveRuns windows) declare = .error e →
        ∃ run ∈ liveRuns windows, declare run = .error e := by
  refine ⟨fun properties => ?_, fun selector shared arms => ?_, fun windows hvalid declare e h => ?_⟩
  · rw [declareRecord_eq, recordHistory_eq]
    refine failsExactly_of_refusesClashes fun hvalid => recordIn_refusesClashes _ _ ?_
    rw [windowsOf_eq, checked_of_valid hvalid]
  · rw [declareConditional_eq, conditionalHistory_eq]
    refine failsExactly_of_refusesClashes fun hvalid => ?_
    obtain ⟨hshared, harms⟩ := List.forall_mem_append.mp hvalid
    exact conditionalIn_refusesClashes _ _ selector
      (by rw [windowsOf_eq, checked_of_valid hshared]) (by rw [windowsOf_eq, checked_of_valid harms])
  · obtain ⟨before, run, behind, -, hruns, -, hrun⟩ :=
      exists_of_historyOf_eq_error (successive_liveRuns windows) (liveRuns_ne_nil hvalid) h
    exact ⟨run, by simp [hruns], hrun⟩

/-- An account's id, which has become a text without the number being given up. -/
def renumbered : List (Dated Property) :=
  [Property.make "id" (.primitive .integer) "",
    ⟨(Property.make "id" (.primitive .stringId) "").member, some .dated20201117, none⟩]

theorem clash_renumbered_iff {v : Version} {k : String} :
    Clash Property.serialName renumbered v k ↔ .dated20201117 ≤ v ∧ k = "id" := by
  have hkeys : renumbered.map (·.member.serialName) = ["id", "id"] := by decide +kernel
  obtain ⟨hfirst, hsecond⟩ := List.cons.inj hkeys
  obtain ⟨hsecond, -⟩ := List.cons.inj hsecond
  constructor
  · intro h
    obtain ⟨d, d', hsub, ⟨-, hk⟩, hlive', -⟩ := h
    obtain ⟨rfl, htail⟩ := List.cons.inj (hsub.eq_of_length rfl)
    obtain ⟨rfl, -⟩ := List.cons.inj htail
    exact ⟨hlive'.1 _ rfl, hk.symm.trans hfirst⟩
  · intro h
    obtain ⟨hv, rfl⟩ := h
    exact ⟨_, _, .refl _, ⟨⟨nofun, nofun⟩, hfirst⟩,
      ⟨fun since hsince => Option.some.inj hsince ▸ hv, nofun⟩, hsecond⟩

/-- It fails at the version at which the text comes in, in the run that begins there. -/
theorem declaration_fails_exactly_renumbered :
    (top.declareRecord "Account" renumbered "").run .empty =
      .error (.duplicateMember (top.qualify "Account") "id" .dated20201117) .empty ∧
    ∃ run ∈ liveRuns (renumbered.map Dated.bounds), ∃ e,
      recordIn (top.qualify "Account") renumbered "" run = .error e := by
  obtain ⟨hrecord, -, hhistory⟩ := declaration_fails_exactly top .empty "Account" ""
  have hvalid : ∀ w ∈ renumbered.map Dated.bounds, w.Valid := by decide
  have hclash := clash_renumbered_iff.mpr ⟨Nat.le_refl _, rfl⟩
  obtain ⟨e, r', he⟩ := (hrecord renumbered).fails_iff.mpr
    ⟨_, .clash hvalid hclash fun u k h => (clash_renumbered_iff.mp h).1⟩
  obtain rfl := (hrecord renumbered).unchanged e r' he
  have hfault : e = .duplicateMember (top.qualify "Account") "id" .dated20201117 := by
    cases (hrecord renumbered).fault e _ he with
    | malformed first => cases first
    | taken _ apart _ => exact absurd hclash (apart _ _)
    | @clash v k _ hclash' hearliest =>
        obtain ⟨hle, rfl⟩ := clash_renumbered_iff.mp hclash'
        rw [Version.rank_inj.mp (Nat.le_antisymm (hearliest _ _ hclash) hle)]
  obtain ⟨e', he'⟩ : ∃ e, historyOf (liveRuns (renumbered.map Dated.bounds))
      (recordIn (top.qualify "Account") renumbered "") = .error e := by
    rw [declareRecord_eq, recordHistory_eq, historyWithin, checked_of_valid hvalid] at he
    rcases EStateM.ofExcept_bind_eq_error_iff.mp he with ⟨h, -⟩ | ⟨_, _, h⟩
    · exact ⟨e, h⟩
    · cases hfault.symm.trans (register_eq_error_iff.mp h).2.1
  obtain ⟨run, hrun, hdeclare⟩ := hhistory _ hvalid _ e' he'
  exact ⟨hfault ▸ he, run, hrun, e', hdeclare⟩

end Scope

end ApiChronicle
