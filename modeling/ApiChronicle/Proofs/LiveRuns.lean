import ApiChronicle.Proofs.TimelineOrder
import ApiChronicle.Scope

/-! # ApiChronicle.Proofs.LiveRuns

**Runs of live members**: what a stretch of versions is cut into.

The cut walks over the versions and carries the run that is going on. `Cuts` lists
the moves of this walk and `CutState` says what holds between them: the pending run
has members, and they are the live members at every version that the walk has left
behind since the run began. From these two follows what a cut is good for. The
windows of its runs lie one after the other, the members of a run are the live
members at each of its versions, a run stops only where they change, and no version
with live members is left out.

For the runs of a list of windows this comes to four statements: `successive_liveRuns`,
`live_of_mem_liveRuns`, `live_ne_of_stop_of_mem_liveRuns` and `exists_liveRun_iff`.
-/

namespace ApiChronicle

open Window (Successive)

/-! ### The walk over the versions -/

/-- The run that begins at a version, if the version has live members. -/
def runFrom (live : Version → List Nat) (v : Version) : Option (Version × List Nat) :=
  if (live v).isEmpty then none else some (v, live v)

/-- The moves of a cut: what is pending, the versions to come, and the runs that are
cut from them. -/
inductive Cuts (live : Version → List Nat) :
    Option (Version × List Nat) → List Version → List Run → Prop
  | done : Cuts live none [] []
  /-- A run that never stops is open-ended. -/
  | last {since members} : Cuts live (some (since, members)) [] [⟨⟨since, none⟩, members⟩]
  /-- The pending run goes on as long as its members are the live ones. -/
  | goOn {since v later runs} (tail : Cuts live (some (since, live v)) later runs) :
      Cuts live (some (since, live v)) (v :: later) runs
  | stop {since members v later runs} (changed : members ≠ live v)
      (tail : Cuts live (runFrom live v) later runs) :
      Cuts live (some (since, members)) (v :: later) (⟨⟨since, some v⟩, members⟩ :: runs)
  | start {v later runs} (tail : Cuts live (runFrom live v) later runs) :
      Cuts live none (v :: later) runs

theorem cuts_cutRuns (live : Version → List Nat) (pending : Option (Version × List Nat))
    (later : List Version) : Cuts live pending later (cutRuns live pending later) := by
  induction later generalizing pending with
  | nil =>
      cases pending with
      | none => exact .done
      | some run => exact .last
  | cons v later ih =>
      cases pending with
      | none =>
          unfold cutRuns
          exact .start (ih _)
      | some run =>
          obtain ⟨since, members⟩ := run
          unfold cutRuns
          split
          · next hsame =>
            obtain rfl : members = live v := Option.some.inj hsame
            exact .goOn (ih _)
          · next hchanged =>
            exact .stop (fun h => hchanged (congrArg some h)) (ih _)

variable {live : Version → List Nat} {pending : Option (Version × List Nat)}
  {later : List Version} {runs : List Run} {v : Version}

theorem of_mem_runFrom {run : Version × List Nat} (h : run ∈ runFrom live v) :
    run = (v, live v) ∧ live v ≠ [] := by
  unfold runFrom at h
  split at h
  · cases h
  · next hlive =>
    exact ⟨(Option.some.inj h).symm, fun hnil => hlive (List.isEmpty_iff.mpr hnil)⟩

/-- Between two moves of a cut. -/
structure CutState (live : Version → List Nat) (pending : Option (Version × List Nat))
    (later : List Version) : Prop where
  /-- The versions to come run forward in time. -/
  sorted : later.Pairwise (· < ·)
  /-- None is missing among them. -/
  upward : ∀ v ∈ later, ∀ u, v ≤ u → u ∈ later
  /-- The pending run began before them. -/
  begun : ∀ run ∈ pending, ∀ v ∈ later, run.1 < v
  /-- It has members. -/
  inhabited : ∀ run ∈ pending, run.2 ≠ []
  /-- They have been the live members since it began. -/
  steady : ∀ run ∈ pending, ∀ v, run.1 ≤ v → v ∉ later → live v = run.2

namespace CutState

theorem initial (live : Version → List Nat) : CutState live none Version.all where
  sorted := Version.all_sorted
  upward _ _ u _ := u.mem_all
  begun _ h := by cases h
  inhabited _ h := by cases h
  steady _ h := by cases h

/-- Every version from the next one on is that version or a later one. -/
theorem eq_or_mem (h : CutState live pending (v :: later)) {u : Version} (hle : v ≤ u) :
    u = v ∨ u ∈ later :=
  List.mem_cons.mp (h.upward v List.mem_cons_self u hle)

theorem le_of_mem (h : CutState live pending (v :: later)) {u : Version}
    (hu : u ∈ v :: later) : v ≤ u := by
  rcases List.mem_cons.mp hu with rfl | hu
  · exact Nat.le_refl _
  · exact Nat.le_of_lt ((List.pairwise_cons.mp h.sorted).1 u hu)

theorem upward_tail (h : CutState live pending (v :: later)) :
    ∀ u ∈ later, ∀ x, u ≤ x → x ∈ later := by
  intro u hu x hle
  have hlt : v < u := (List.pairwise_cons.mp h.sorted).1 u hu
  rcases h.eq_or_mem (Nat.le_trans (Nat.le_of_lt hlt) hle) with rfl | hx
  · exact absurd hlt (Nat.not_lt_of_le hle)
  · exact hx

theorem goOn {since : Version} (h : CutState live (some (since, live v)) (v :: later)) :
    CutState live (some (since, live v)) later where
  sorted := h.sorted.tail
  upward := h.upward_tail
  begun run hrun u hu := h.begun run hrun u (List.mem_cons_of_mem _ hu)
  inhabited := h.inhabited
  steady := by
    intro run hrun u hle hu
    by_cases huv : u = v
    · obtain rfl := Option.some.inj hrun
      rw [huv]
    · exact h.steady run hrun u hle (List.not_mem_cons_of_ne_of_not_mem huv hu)

/-- A run may begin anew at any version. -/
theorem start (h : CutState live pending (v :: later)) :
    CutState live (runFrom live v) later where
  sorted := h.sorted.tail
  upward := h.upward_tail
  begun run hrun := by
    obtain ⟨rfl, -⟩ := of_mem_runFrom hrun
    exact (List.pairwise_cons.mp h.sorted).1
  inhabited run hrun := by
    obtain ⟨rfl, hlive⟩ := of_mem_runFrom hrun
    exact hlive
  steady run hrun u hle hu := by
    obtain ⟨rfl, -⟩ := of_mem_runFrom hrun
    rw [(h.eq_or_mem hle).resolve_right hu]

end CutState

/-! ### What is cut -/

namespace Cuts

/-- No run starts before the pending one and before the versions to come. -/
theorem le_since (h : Cuts live pending later runs) {bound : Version}
    (hpending : ∀ run ∈ pending, bound ≤ run.1) (hlater : ∀ v ∈ later, bound ≤ v) :
    ∀ run ∈ runs, bound ≤ run.window.since := by
  have hstart : ∀ {v}, bound ≤ v → ∀ run ∈ runFrom live v, bound ≤ run.1 := by
    intro v hv run hrun
    obtain ⟨rfl, -⟩ := of_mem_runFrom hrun
    exact hv
  induction h with
  | done => exact fun _ hrun => absurd hrun List.not_mem_nil
  | last =>
      intro run hrun
      obtain rfl := List.mem_singleton.mp hrun
      exact hpending _ rfl
  | goOn _ ih => exact ih hpending (List.forall_mem_cons.mp hlater).2
  | stop _ _ ih =>
      obtain ⟨hv, hlater⟩ := List.forall_mem_cons.mp hlater
      intro run hrun
      rcases List.mem_cons.mp hrun with rfl | hrun
      · exact hpending _ rfl
      · exact ih (hstart hv) hlater run hrun
  | start _ ih =>
      obtain ⟨hv, hlater⟩ := List.forall_mem_cons.mp hlater
      exact ih (hstart hv) hlater

/-- The runs lie one after the other. -/
theorem successive (h : Cuts live pending later runs) (hs : CutState live pending later) :
    Successive (runs.map Run.window) := by
  induction h with
  | done => exact Window.successive_nil
  | last => exact Window.successive_singleton fun _ hstop => by cases hstop
  | goOn _ ih => exact ih hs.goOn
  | @stop since members v later runs _ tail ih =>
      refine Window.successive_cons.mpr ⟨fun stop hstop => ?_, fun w hw => ?_, ih hs.start⟩
      · obtain rfl := Option.some.inj hstop
        exact hs.begun _ rfl _ List.mem_cons_self
      · -- the runs behind this one start where it stops, or later
        obtain ⟨run, hrun, rfl⟩ := List.mem_map.mp hw
        refine ⟨v, rfl, tail.le_since (fun run hrun => ?_) (fun u hu => ?_) run hrun⟩
        · obtain ⟨rfl, -⟩ := of_mem_runFrom hrun
          exact Nat.le_refl _
        · exact hs.le_of_mem (List.mem_cons_of_mem _ hu)
  | start _ ih => exact ih hs.start

/-- The members of a run are the live ones at each of its versions. -/
theorem live_eq (h : Cuts live pending later runs) (hs : CutState live pending later) :
    ∀ run ∈ runs, run.live ≠ [] ∧ ∀ u, run.window.contains u = true → live u = run.live := by
  induction h with
  | done => exact fun _ hrun => absurd hrun List.not_mem_nil
  | last =>
      intro run hrun
      obtain rfl := List.mem_singleton.mp hrun
      refine ⟨hs.inhabited _ rfl, fun u hu => ?_⟩
      exact hs.steady _ rfl u (Window.contains_iff.mp hu).1 List.not_mem_nil
  | goOn _ ih => exact ih hs.goOn
  | @stop since members v later runs _ _ ih =>
      intro run hrun
      rcases List.mem_cons.mp hrun with rfl | hrun
      · refine ⟨hs.inhabited _ rfl, fun u hu => ?_⟩
        obtain ⟨hsince, hstop⟩ := Window.contains_iff.mp hu
        exact hs.steady _ rfl u hsince fun hmem =>
          Nat.not_lt_of_le (hs.le_of_mem hmem) (hstop v rfl)
      · exact ih hs.start run hrun
  | start _ ih => exact ih hs.start

/-- A run stops where the live members change. -/
theorem live_ne_of_stop (h : Cuts live pending later runs) :
    ∀ run ∈ runs, ∀ stop ∈ run.window.stop, run.live ≠ live stop := by
  induction h with
  | done => exact fun _ hrun => absurd hrun List.not_mem_nil
  | last =>
      intro run hrun stop hstop
      obtain rfl := List.mem_singleton.mp hrun
      cases hstop
  | goOn _ ih => exact ih
  | stop changed _ ih =>
      intro run hrun
      rcases List.mem_cons.mp hrun with rfl | hrun
      · intro stop hstop
        obtain rfl := Option.some.inj hstop
        exact changed
      · exact ih run hrun
  | start _ ih => exact ih

/-- No version with live members is left out. -/
theorem covers (h : Cuts live pending later runs) (hs : CutState live pending later) {u : Version}
    (hu : u ∈ later ∨ ∃ run ∈ pending, run.1 ≤ u) (hlive : live u ≠ []) :
    ∃ run ∈ runs, run.window.contains u = true := by
  have hstart : ∀ {v}, u = v → ∃ run ∈ runFrom live v, run.1 ≤ u := by
    intro v huv
    subst huv
    refine ⟨(u, live u), ?_, Nat.le_refl _⟩
    simp [runFrom, hlive]
  induction h with
  | done => simp at hu
  | last =>
      obtain ⟨run, hrun, hle⟩ := hu.resolve_left List.not_mem_nil
      obtain rfl := Option.some.inj hrun
      exact ⟨_, List.mem_singleton_self _, Window.contains_iff.mpr ⟨hle, fun _ h => by cases h⟩⟩
  | goOn _ ih =>
      refine ih hs.goOn ?_
      rcases hu with hu | hu
      · rcases List.mem_cons.mp hu with rfl | hu
        · exact Or.inr ⟨_, rfl, Nat.le_of_lt (hs.begun _ rfl _ List.mem_cons_self)⟩
        · exact Or.inl hu
      · exact Or.inr hu
  | @stop since members v later runs _ _ ih =>
      -- a version before the change belongs to the run that it ends
      by_cases hlt : u < v
      · have hsince : since ≤ u := by
          rcases hu with hu | ⟨run, hrun, hle⟩
          · exact absurd hlt (Nat.not_lt_of_le (hs.le_of_mem hu))
          · obtain rfl := Option.some.inj hrun
            exact hle
        exact ⟨_, List.mem_cons_self, Window.contains_iff.mpr
          ⟨hsince, fun stop hstop => Option.some.inj hstop ▸ hlt⟩⟩
      · obtain ⟨run, hrun, hcontains⟩ :=
          ih hs.start ((hs.eq_or_mem (Nat.le_of_not_lt hlt)).symm.imp_right hstart)
        exact ⟨run, List.mem_cons_of_mem _ hrun, hcontains⟩
  | start _ ih =>
      have hmem := hu.resolve_right (by simp)
      exact ih hs.start ((List.mem_cons.mp hmem).symm.imp_right hstart)

end Cuts

/-! ### Runs of a list of windows -/

section LiveRuns

variable {windows : List Window}

theorem mem_liveAt_iff {i : Nat} :
    i ∈ liveAt windows v ↔ ∃ w, windows[i]? = some w ∧ w.contains v = true := by
  simp [liveAt, List.mem_zipIdx_iff_getElem?]

/-- Places are listed in order. -/
theorem sorted_liveAt (windows : List Window) (v : Version) :
    (liveAt windows v).Pairwise (· < ·) := by
  have hplaces : (windows.zipIdx.map Prod.snd).Pairwise (· < ·) := by
    simpa using List.pairwise_lt_range'
  exact hplaces.sublist (List.filter_sublist.map _)

/-- Of the places in two lists of windows, those in the first one come first. -/
theorem mem_liveAt_append_left {windows' : List Window} {i : Nat} :
    i ∈ (liveAt (windows ++ windows') v).filter (· < windows.length) ↔ i ∈ liveAt windows v := by
  rw [List.mem_filter, decide_eq_true_iff, mem_liveAt_iff, mem_liveAt_iff]
  constructor
  · intro h
    obtain ⟨⟨w, hw, hv⟩, hlt⟩ := h
    exact ⟨w, List.getElem?_append_left hlt ▸ hw, hv⟩
  · intro h
    obtain ⟨w, hw, hv⟩ := h
    have hlt : i < windows.length := (List.getElem?_eq_some_iff.mp hw).1
    exact ⟨⟨w, (List.getElem?_append_left hlt).trans hw, hv⟩, hlt⟩

/-- Those in the second one follow, counted on. -/
theorem mem_liveAt_append_right {windows' : List Window} {i : Nat} :
    i ∈ ((liveAt (windows ++ windows') v).filter fun i => !decide (i < windows.length)).map
        (· - windows.length) ↔
      i ∈ liveAt windows' v := by
  have hplace : windows.length + i ∈ liveAt (windows ++ windows') v ↔ i ∈ liveAt windows' v := by
    simp only [mem_liveAt_iff, List.getElem?_append_right (Nat.le_add_right ..),
      Nat.add_sub_cancel_left]
  rw [← hplace, List.mem_map]
  constructor
  · intro h
    obtain ⟨j, hj, rfl⟩ := h
    obtain ⟨hlive, hle⟩ := List.mem_filter.mp hj
    have hle : windows.length ≤ j := by simpa using hle
    rwa [Nat.add_sub_cancel' hle]
  · intro h
    exact ⟨_, List.mem_filter.mpr ⟨h, by simp⟩, Nat.add_sub_cancel_left ..⟩

theorem liveAt_ne_nil_iff :
    liveAt windows v ≠ [] ↔ ∃ w ∈ windows, w.contains v = true := by
  constructor
  · intro hlive
    obtain ⟨i, hi⟩ := List.exists_mem_of_ne_nil _ hlive
    obtain ⟨w, hw, hv⟩ := mem_liveAt_iff.mp hi
    exact ⟨w, List.mem_of_getElem? hw, hv⟩
  · intro hw
    obtain ⟨w, hw, hv⟩ := hw
    obtain ⟨i, hi⟩ := List.mem_iff_getElem?.mp hw
    exact List.ne_nil_of_mem (mem_liveAt_iff.mpr ⟨w, hi, hv⟩)

/-- The runs lie one after the other. -/
theorem successive_liveRuns (windows : List Window) :
    Successive ((liveRuns windows).map Run.window) := by
  unfold liveRuns
  split
  · exact Window.successive_singleton fun _ hstop => by cases hstop
  · exact (cuts_cutRuns ..).successive (CutState.initial _)

/-- A run holds the places of the windows that contain any one of its versions. -/
theorem live_of_mem_liveRuns {run : Run} (h : run ∈ liveRuns windows)
    (hv : run.window.contains v = true) : run.live = liveAt windows v := by
  unfold liveRuns at h
  split at h
  · next hempty =>
    obtain rfl := List.mem_singleton.mp h
    obtain rfl := List.isEmpty_iff.mp hempty
    rfl
  · exact (((cuts_cutRuns ..).live_eq (CutState.initial _) run h).2 v hv).symm

/-- A run begins with its first version. -/
theorem contains_since_of_mem_liveRuns {run : Run} (h : run ∈ liveRuns windows) :
    run.window.contains run.window.since = true :=
  ((successive_liveRuns windows).valid _ (List.mem_map_of_mem h)).contains_since

/-- The members of a run are live when it begins. -/
theorem live_eq_of_mem_liveRuns {run : Run} (h : run ∈ liveRuns windows) :
    run.live = liveAt windows run.window.since :=
  live_of_mem_liveRuns h (contains_since_of_mem_liveRuns h)

/-- A run has members, unless there are none at all. -/
theorem live_ne_nil_of_mem_liveRuns (hne : windows ≠ []) {run : Run} (h : run ∈ liveRuns windows) :
    run.live ≠ [] := by
  rw [liveRuns, if_neg (by simpa using hne)] at h
  exact ((cuts_cutRuns ..).live_eq (CutState.initial _) run h).1

/-- A run stops only where other windows contain the version. -/
theorem live_ne_of_stop_of_mem_liveRuns {run : Run} (h : run ∈ liveRuns windows) {stop : Version}
    (hstop : stop ∈ run.window.stop) : run.live ≠ liveAt windows stop := by
  unfold liveRuns at h
  split at h
  · obtain rfl := List.mem_singleton.mp h
    cases hstop
  · exact (cuts_cutRuns ..).live_ne_of_stop run h stop hstop

/-- A version lies in a run if it lies in one of the windows, and always if there are
none. -/
theorem exists_liveRun_iff :
    (∃ run ∈ liveRuns windows, run.window.contains v = true) ↔
      windows = [] ∨ ∃ w ∈ windows, w.contains v = true := by
  rw [← liveAt_ne_nil_iff]
  unfold liveRuns
  split
  · next hempty =>
    obtain rfl := List.isEmpty_iff.mp hempty
    exact iff_of_true ⟨_, List.mem_singleton_self _, Window.contains_unbounded v⟩ (Or.inl rfl)
  · next hempty =>
    have hcuts := cuts_cutRuns (liveAt windows) none Version.all
    constructor
    · intro hrun
      obtain ⟨run, hrun, hv⟩ := hrun
      obtain ⟨hlive, heq⟩ := hcuts.live_eq (CutState.initial _) run hrun
      exact Or.inr (heq v hv ▸ hlive)
    · intro hlive
      have hne : windows ≠ [] := fun hnil => hempty (List.isEmpty_iff.mpr hnil)
      exact hcuts.covers (CutState.initial _) (Or.inl v.mem_all) (hlive.resolve_left hne)

end LiveRuns

end ApiChronicle
