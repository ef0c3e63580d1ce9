import ApiChronicle.Proofs.MemberOrder

/-! # ApiChronicle.Proofs.MaximalRuns

**Versions are cut where the live members change, and nowhere else.**

`IsCut` says what the runs of a list of windows are like. Most of it is what `Proofs.LiveRuns`
says of the walk over the versions; in addition, a run stops only where other windows contain
the version, so two runs that touch have different members and no cut could be left out.

A type is registered without change if the versions are not cut at all. Since no cut could be
left out, this says something about the members themselves: there is one run for all versions
exactly if every window contains every version (`windows_liveRuns_eq_unbounded_iff`).
-/

namespace ApiChronicle

open Window (Successive)

/-! ### Runs as long as they can be -/

/-- What a list of windows is cut into. -/
structure IsCut (windows : List Window) (runs : List Run) : Prop where
  /-- The runs lie one after the other, and only the last one may be open-ended. -/
  successive : Successive (runs.map Run.window)
  /-- Each holds a version. -/
  inhabited : ∀ run ∈ runs, ∃ v, run.window.contains v = true
  /-- No version lies in two of them. -/
  disjoint : ∀ v, runs.Pairwise fun run run' =>
    ¬(run.window.contains v = true ∧ run'.window.contains v = true)
  /-- The places of the members are listed in order. -/
  sorted : ∀ run ∈ runs, run.live.Pairwise (· < ·)
  /-- There are members, unless there are none at all. -/
  live_ne_nil : windows ≠ [] → ∀ run ∈ runs, run.live ≠ []
  /-- At each version of a run, its members are the windows that contain the version. -/
  mem_live_iff : ∀ run ∈ runs, ∀ v, run.window.contains v = true → ∀ i,
    i ∈ run.live ↔ ∃ w, windows[i]? = some w ∧ w.contains v = true
  /-- A version that lies in a window lies in one run. -/
  unique : ∀ v, (∃ w ∈ windows, w.contains v = true) →
    ∃! run, run ∈ runs ∧ run.window.contains v = true
  /-- Runs that touch have different members. -/
  maximal : ∀ run ∈ runs, ∀ run' ∈ runs,
    run.window.stop = some run'.window.since → run.live ≠ run'.live

variable {windows : List Window} {run : Run} {v : Version}

theorem isCut_liveRuns (windows : List Window) : IsCut windows (liveRuns windows) where
  successive := successive_liveRuns windows
  inhabited run hrun := ⟨_, contains_since_of_mem_liveRuns hrun⟩
  disjoint v := List.pairwise_map.mp ((successive_liveRuns windows).pairwise_not_contains v)
  sorted run hrun := by
    rw [live_eq_of_mem_liveRuns hrun]
    exact sorted_liveAt windows _
  live_ne_nil hne run hrun := live_ne_nil_of_mem_liveRuns hne hrun
  mem_live_iff run hrun v hv i := by
    rw [live_of_mem_liveRuns hrun hv]
    exact mem_liveAt_iff
  unique v hlive := by
    obtain ⟨run, hrun, hv⟩ := exists_liveRun_iff.mpr (Or.inr hlive)
    refine ⟨run, ⟨hrun, hv⟩, fun run' hrun' => ?_⟩
    exact (successive_liveRuns windows).eq_of_contains hrun'.1 hrun'.2 hrun hv
  maximal run hrun run' hrun' htouch := by
    rw [live_eq_of_mem_liveRuns hrun']
    exact live_ne_of_stop_of_mem_liveRuns hrun htouch

/-! ### Versions that are not cut -/

/-- A window that lies in a run for all versions contains all versions. -/
theorem contains_of_windows_eq_unbounded (h : (liveRuns windows).map Run.window = [.unbounded])
    {w : Window} (hw : w ∈ windows) (hvalid : w.Valid) (v : Version) : w.contains v = true := by
  obtain ⟨run, hruns, hrun⟩ := List.map_eq_singleton_iff.mp h
  have hmem : run ∈ liveRuns windows := hruns ▸ List.mem_singleton_self run
  have hall : ∀ u, run.live = liveAt windows u := by
    intro u
    refine live_of_mem_liveRuns hmem ?_
    rw [hrun]
    exact Window.contains_unbounded u
  -- the window is live where it starts, and so it is live everywhere
  have hsame := liveAt_eq_iff.mp ((hall w.since).symm.trans (hall v)) w hw
  rw [← hsame]
  exact hvalid.contains_since

/-- Where all windows contain all versions, no run stops. -/
theorem window_eq_unbounded (h : ∀ w ∈ windows, ∀ v, w.contains v = true)
    (hrun : run ∈ liveRuns windows) (hv : run.window.contains .classic = true) :
    run.window = .unbounded := by
  have hsince : run.window.since = .classic :=
    Version.rank_inj.mp (Nat.le_zero.mp (Window.contains_iff.mp hv).1)
  have hstop : run.window.stop = none := by
    refine Option.eq_none_iff_forall_ne_some.mpr fun stop hstop => ?_
    refine live_ne_of_stop_of_mem_liveRuns hrun hstop ?_
    rw [live_of_mem_liveRuns hrun hv, liveAt_eq_iff]
    intro w hw
    rw [h w hw, h w hw]
  rw [Window.unbounded, ← hsince, ← hstop]

/-- The versions are not cut exactly if all windows contain all of them. -/
theorem windows_liveRuns_eq_unbounded_iff (hvalid : ∀ w ∈ windows, w.Valid) :
    (liveRuns windows).map Run.window = [.unbounded] ↔
      ∀ w ∈ windows, ∀ v, w.contains v = true := by
  constructor
  · intro h w hw
    exact contains_of_windows_eq_unbounded h hw (hvalid w hw)
  · intro h
    have hlive : windows = [] ∨ ∃ w ∈ windows, w.contains .classic = true := by
      cases windows with
      | nil => exact Or.inl rfl
      | cons w rest => exact Or.inr ⟨w, List.mem_cons_self, h w List.mem_cons_self _⟩
    obtain ⟨run, hrun, hv⟩ := exists_liveRun_iff.mpr hlive
    refine (successive_liveRuns windows).eq_singleton ?_ Window.contains_unbounded
    rw [← window_eq_unbounded h hrun hv]
    exact List.mem_map_of_mem hrun

/-! ### Types without change -/

namespace Scope

variable {α : Type} {members : List (Dated α)} {history : History}
  {declare : Run → Except DefinitionError Declaration}

theorem valid_of_windowsOf (h : windowsOf members = .ok windows) : ∀ w ∈ windows, w.Valid := by
  intro w hw
  obtain ⟨d, -, hd⟩ := List.exists_mem_of_forall₂ (windowsOf_eq_ok h).flip hw
  exact Window.valid_of_ofBounds hd

/-- All windows contain all versions if all members are live at all of them. -/
theorem forall_contains_iff (h : windowsOf members = .ok windows) :
    (∀ w ∈ windows, ∀ v, w.contains v = true) ↔ ∀ d ∈ members, ∀ v, d.LiveAt v := by
  constructor
  · intro hall d hd v
    obtain ⟨w, hw, hwindow⟩ := List.exists_mem_of_forall₂ (windowsOf_eq_ok h) hd
    exact (Dated.contains_iff_liveAt hwindow).mp (hall w hw v)
  · intro hall w hw v
    obtain ⟨d, hd, hwindow⟩ := List.exists_mem_of_forall₂ (windowsOf_eq_ok h).flip hw
    exact (Dated.contains_iff_liveAt hwindow).mpr (hall d hd v)

/-- A history is kept without change exactly if all members are live at all versions. -/
theorem isConstant_of_historyOf (hvalid : ∀ w ∈ windows, w.Valid)
    (h : historyOf (liveRuns windows) declare = .ok history) :
    history.isConstant = true ↔ ∀ w ∈ windows, ∀ v, w.contains v = true := by
  obtain ⟨t, rfl, -, hentered⟩ := historyOf_eq_ok (successive_liveRuns windows) h
  rw [← windows_liveRuns_eq_unbounded_iff hvalid, hentered.windows_eq,
    History.isConstant_ofTimeline, Timeline.isConstant_iff, Timeline.entries, List.map_cons,
    List.cons_eq_cons, List.map_eq_nil_iff, and_comm]

end Scope

/-- **Versions are cut where the live members change, and nowhere else.** A list of windows is cut
into runs that lie one after the other and share no version; only the last one may be open-ended.
The members of a run are, in order, the windows that contain any one of its versions, and there
are some unless there are no windows. Every version that lies in a window lies in one run, and
runs that touch have different members. So a record is registered without change exactly if all
of its properties are live at every version, and a conditional exactly if all of its shared
properties and interpretations are; those without members are among them. -/
theorem cut_where_members_change :
    (∀ windows : List Window, IsCut windows (liveRuns windows)) ∧
    ∀ (s : Scope) (r r' : Registry) (spelling description : String) (use : TypeUse),
      (∀ properties : List (Dated Property),
        (s.declareRecord spelling properties description).run r = .ok use r' →
        ∃ history, r'.get? (s.qualify spelling) = some history ∧
          (history.isConstant = true ↔ ∀ p ∈ properties, ∀ v, p.LiveAt v)) ∧
      ∀ (selector : Selector) (shared : List (Dated Property)) (arms : List (Dated Interpretation)),
        (s.declareConditional spelling selector shared arms description).run r = .ok use r' →
        ∃ history, r'.get? (s.qualify spelling) = some history ∧
          (history.isConstant = true ↔
            (∀ p ∈ shared, ∀ v, p.LiveAt v) ∧ ∀ a ∈ arms, ∀ v, a.LiveAt v) := by
  refine ⟨isCut_liveRuns, fun s r r' spelling description use => ⟨fun properties h => ?_,
    fun selector shared arms h => ?_⟩⟩
  · obtain ⟨windows, history, hwindows, hhistory, hinsert, -⟩ := Scope.declareRecord_eq_ok h
    refine ⟨history, by simp [Registry.get?_of_insert hinsert], ?_⟩
    rw [Scope.isConstant_of_historyOf (Scope.valid_of_windowsOf hwindows) hhistory,
      Scope.forall_contains_iff hwindows]
  · obtain ⟨sharedWindows, armWindows, history, hshared, harms, hhistory, hinsert, -⟩ :=
      Scope.declareConditional_eq_ok h
    have hvalid : ∀ w ∈ sharedWindows ++ armWindows, w.Valid :=
      List.forall_mem_append.mpr
        ⟨Scope.valid_of_windowsOf hshared, Scope.valid_of_windowsOf harms⟩
    refine ⟨history, by simp [Registry.get?_of_insert hinsert], ?_⟩
    rw [Scope.isConstant_of_historyOf hvalid hhistory, List.forall_mem_append,
      Scope.forall_contains_iff hshared, Scope.forall_contains_iff harms]

/-- An account's name, and its world, which came with the first version. -/
def lasting : List (Dated Property) :=
  [Property.make "name" (.primitive .string) "",
   (PropertyModifier.since .classic).apply (Property.make "world" (.primitive .integer) "")]

/-- A version in two windows, one inside the other, lies in one run of its own. An account is
registered without change if it has lasting properties only, and not if it may belong to a guild
for a while. -/
theorem cut_where_members_change_lasting :
    (∃! run, run ∈ liveRuns [.unbounded, ⟨.dated20190516, some .dated20191219⟩] ∧
      run.window.contains .dated20190521 = true) ∧
    (∃ use r history,
      (Scope.top.declareRecord "Account" lasting "").run .empty = .ok use r ∧
      r.get? (Scope.top.qualify "Account") = some history ∧ history.isConstant = true) ∧
    ∃ use r history,
      (Scope.top.declareConditional "Account" ⟨"owner", false, true⟩ lasting Scope.guilds "").run
        .empty = .ok use r ∧
      r.get? (Scope.top.qualify "Account") = some history ∧ history.isConstant = false := by
  have hlive : ∀ p ∈ lasting, ∀ v, p.LiveAt v := by
    intro p hp v
    simp only [lasting, List.mem_cons, List.not_mem_nil, or_false] at hp
    rcases hp with rfl | rfl
    · refine ⟨fun since hsince => ?_, fun stop hstop => ?_⟩
      · cases hsince
      · cases hstop
    · refine ⟨fun since hsince => ?_, fun stop hstop => ?_⟩
      · obtain rfl := Option.some.inj hsince
        exact Nat.zero_le _
      · cases hstop
  refine ⟨?_, ?_, ?_⟩
  · exact (cut_where_members_change.1 _).unique .dated20190521 (by decide)
  · obtain ⟨r, hkept⟩ := Except.isOk_iff_exists.mp
      (show ((Scope.top.declareRecord "Account" lasting "").run .empty).kept.isOk = true by
        decide +kernel)
    obtain ⟨use, h⟩ := EStateM.kept_eq_ok_iff.mp hkept
    obtain ⟨history, hget, hconstant⟩ :=
      (cut_where_members_change.2 Scope.top .empty r "Account" "" use).1 lasting h
    exact ⟨use, r, history, h, hget, hconstant.mpr hlive⟩
  · obtain ⟨r, hkept⟩ := Except.isOk_iff_exists.mp
      (show ((Scope.top.declareConditional "Account" ⟨"owner", false, true⟩ lasting
        Scope.guilds "").run .empty).kept.isOk = true by decide +kernel)
    obtain ⟨use, h⟩ := EStateM.kept_eq_ok_iff.mp hkept
    obtain ⟨history, hget, hconstant⟩ :=
      (cut_where_members_change.2 Scope.top .empty r "Account" "" use).2 _ lasting Scope.guilds h
    refine ⟨use, r, history, h, hget, Bool.eq_false_iff.mpr fun hall => ?_⟩
    have hguild := (hconstant.mp hall).2 _ List.mem_cons_self .classic
    exact absurd hguild (by decide)

end ApiChronicle
