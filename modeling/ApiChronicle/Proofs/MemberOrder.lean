import ApiChronicle.Proofs.Reordering
import ApiChronicle.Proofs.Snapshots
import Mathlib.Data.List.Zip

/-! # ApiChronicle.Proofs.MemberOrder

**Members in another order** make the same declaration.

Members are handled by their places, and the places change with the order. What does not
change is which versions have the same live members (`liveAt_eq_iff`), so the versions are cut
into the same runs (`windows_liveRuns_of_perm`). In each run the same members are live, in
another order, and as a snapshot refuses two members of one key whichever of them comes
first, it is the same map (`membersOf_of_perm`). So the histories are made of the same
entries (`recordHistory_of_perm`, `conditionalHistory_of_perm`).
-/

namespace ApiChronicle

/-! ### Snapshots -/

/-- Members can be collected by key in any order, and the order leaves no trace. -/
theorem snapshot_of_perm {α : Type} {key : α → String} {members members' : List α}
    (hperm : members.Perm members') {m : SortedMap String α} (h : snapshot key members = .ok m) :
    snapshot key members' = .ok m := by
  refine List.foldlM_of_perm (fun taken a b taken₁ taken' ha hb => ?_) hperm h
  split at ha
  · cases ha
  next hfreeA =>
  obtain rfl := Except.ok.inj ha
  split at hb
  · cases hb
  next hfreeB =>
  obtain rfl := Except.ok.inj hb
  rw [SortedMap.contains_insert, not_or] at hfreeB
  refine ⟨taken.insert (key b) b, if_neg hfreeB.2, ?_⟩
  have hfree : ¬(taken.insert (key b) b).contains (key a) = true := by
    rw [SortedMap.contains_insert, not_or]
    exact ⟨fun hkey => hfreeB.1 hkey.symm, hfreeA⟩
  rw [if_neg hfree, SortedMap.insert_comm _ hfreeB.1]

/-! ### Places of live members -/

section Places

variable {windows windows' : List Window} {u v : Version}

theorem liveAt_cons (w : Window) (windows : List Window) (v : Version) :
    liveAt (w :: windows) v =
      (if w.contains v then [0] else []) ++ (liveAt windows v).map (· + 1) := by
  rw [liveAt, liveAt, List.zipIdx_cons', List.filter_cons, List.filter_map]
  cases h : w.contains v <;> simp [h, Function.comp_def]

theorem nodup_liveAt (windows : List Window) (v : Version) : (liveAt windows v).Nodup :=
  (sorted_liveAt windows v).imp Nat.ne_of_lt

/-- The same windows are live at two versions if every window treats the two alike. -/
theorem liveAt_eq_iff :
    liveAt windows u = liveAt windows v ↔ ∀ w ∈ windows, w.contains u = w.contains v := by
  constructor
  · intro h w hw
    obtain ⟨i, hi⟩ := List.mem_iff_getElem?.mp hw
    have hplace : ∀ x, i ∈ liveAt windows x ↔ w.contains x = true := fun x => by
      simp [mem_liveAt_iff, hi]
    rw [Bool.eq_iff_iff, ← hplace, ← hplace, h]
  · intro h
    refine congrArg (List.map _) (List.filter_congr fun x hx => ?_)
    exact h x.1 (List.mem_of_getElem? (List.mem_zipIdx_iff_getElem?.mp hx))

end Places

/-! ### Runs -/

/-- Where versions with the same live members are cut does not depend on what the members
are. -/
theorem windows_cutRuns_congr {live live' : Version → List Nat}
    (hsame : ∀ u v, live u = live v ↔ live' u = live' v)
    (hnone : ∀ v, live v = [] ↔ live' v = []) (begun : Option Version) (later : List Version) :
    (cutRuns live (begun.map fun since => (since, live since)) later).map Run.window =
      (cutRuns live' (begun.map fun since => (since, live' since)) later).map Run.window := by
  induction later generalizing begun with
  | nil => cases begun <;> rfl
  | cons v later ih =>
      -- a run begins anew at this version, or none does
      have hanew := ih (if live v = [] then none else some v)
      rw [apply_ite (Option.map _), apply_ite (Option.map _)] at hanew
      cases begun with
      | none => simpa [cutRuns, hnone] using hanew
      | some since =>
          by_cases hchanged : live since = live v
          · have hchanged' := (hsame since v).mp hchanged
            simpa [cutRuns, hchanged, hchanged'] using ih (some since)
          · have hchanged' : ¬live' since = live' v := fun h => hchanged ((hsame since v).mpr h)
            simpa [cutRuns, hchanged, hchanged', hnone] using hanew

/-- The runs lie in the same windows in whatever order the members are listed. -/
theorem windows_liveRuns_of_perm {windows windows' : List Window}
    (hperm : windows.Perm windows') :
    (liveRuns windows).map Run.window = (liveRuns windows').map Run.window := by
  have hsame : ∀ u v, liveAt windows u = liveAt windows v ↔ liveAt windows' u = liveAt windows' v :=
    fun u v => by simp only [liveAt_eq_iff, hperm.mem_iff]
  have hnone : ∀ v, liveAt windows v = [] ↔ liveAt windows' v = [] := fun v => by
    rw [← not_iff_not, ← ne_eq, ← ne_eq, liveAt_ne_nil_iff, liveAt_ne_nil_iff]
    simp only [hperm.mem_iff]
  rw [liveRuns, liveRuns, hperm.isEmpty_eq]
  cases windows'.isEmpty with
  | true => rfl
  | false => exact windows_cutRuns_congr hsame hnone none Version.all

namespace Scope

variable {α : Type} {members members' : List (Dated α)} {windows windows' : List Window}
  {places places' : List Nat} {v : Version}

/-! ### Members at their places -/

theorem windowsOf_of_perm (hperm : members.Perm members')
    (h : windowsOf members = .ok windows) :
    ∃ windows', windowsOf members' = .ok windows' ∧ windows.Perm windows' := by
  obtain ⟨windows', hwindows', hpermWindows⟩ :=
    List.mapM_of_perm hperm (Except.mapError_eq_ok_iff.mp h)
  exact ⟨windows', Except.mapError_eq_ok_iff.mpr hwindows', hpermWindows⟩

/-- The members at the places of the live windows are the live ones, in their order. -/
theorem filterMap_liveAt (h : windowsOf members = .ok windows) :
    (liveAt windows v).filterMap (members[·]?) = members.filter (·.LiveAt v) := by
  have hwindows := windowsOf_eq_ok h
  clear h
  induction hwindows with
  | nil => rfl
  | @cons d w rest restWindows hd _ ih =>
      have hrest : ((liveAt restWindows v).map (· + 1)).filterMap ((d :: rest)[·]?) =
          (liveAt restWindows v).filterMap (rest[·]?) := by
        rw [List.filterMap_map]
        rfl
      rw [liveAt_cons, List.filterMap_append, hrest, ih, List.filter_cons]
      simp only [← Dated.contains_iff_liveAt hd, decide_eq_true_eq]
      split <;> rfl

/-- The same members are found at these places in any order. -/
theorem filterMap_perm_liveAt (h : windowsOf members = .ok windows)
    (hplaces : places.Perm (liveAt windows v)) :
    (places.filterMap (members[·]?)).Perm (members.filter (·.LiveAt v)) :=
  filterMap_liveAt h ▸ hplaces.filterMap _

/-- What is collected at the places of the live members does not depend on the order. -/
theorem membersOf_of_perm (name : QualifiedName) (window : Window) (key : α → String)
    (hperm : members.Perm members') (hwindows : windowsOf members = .ok windows)
    (hwindows' : windowsOf members' = .ok windows') (hplaces : places.Perm (liveAt windows v))
    (hplaces' : places'.Perm (liveAt windows' v)) :
    Except.Entails (membersOf name window key members places)
      (membersOf name window key members' places') := by
  intro shown h
  have hlive : (places.filterMap (members[·]?)).Perm (places'.filterMap (members'[·]?)) :=
    calc
      List.Perm (places.filterMap (members[·]?)) (members.filter (·.LiveAt v)) :=
        filterMap_perm_liveAt hwindows hplaces
      List.Perm _ (members'.filter (·.LiveAt v)) := hperm.filter _
      List.Perm _ (places'.filterMap (members'[·]?)) :=
        (filterMap_perm_liveAt hwindows' hplaces').symm
  have hundated := hlive.map Dated.undated
  rw [List.map_filterMap, List.map_filterMap] at hundated
  exact Except.mapError_eq_ok_iff.mpr
    (snapshot_of_perm hundated (Except.mapError_eq_ok_iff.mp h))

/-- In two lists of windows, those in the first one stand at these places. -/
theorem places_append_left (windows windows' : List Window) (v : Version) :
    ((liveAt (windows ++ windows') v).filter (· < windows.length)).Perm (liveAt windows v) :=
  (List.perm_ext_iff_of_nodup ((nodup_liveAt _ v).filter _) (nodup_liveAt _ v)).mpr fun _ =>
    mem_liveAt_append_left

/-- Those in the second one stand at these. -/
theorem places_append_right (windows windows' : List Window) (v : Version) :
    (((liveAt (windows ++ windows') v).filter fun i => !decide (i < windows.length)).map
      (· - windows.length)).Perm (liveAt windows' v) := by
  refine (List.perm_ext_iff_of_nodup ?_ (nodup_liveAt _ v)).mpr fun _ => mem_liveAt_append_right
  refine ((nodup_liveAt _ v).filter _).map_on fun i hi j hj heq => ?_
  have hi := (List.mem_filter.mp hi).2
  have hj := (List.mem_filter.mp hj).2
  simp only [Bool.not_eq_true', decide_eq_false_iff_not] at hi hj
  omega

/-! ### Histories -/

/-- Runs in the same windows, with declarations that agree, make the same history. -/
theorem historyOf_entails {runs runs' : List Run}
    {declare declare' : Run → Except DefinitionError Declaration}
    (hwindows : runs.map Run.window = runs'.map Run.window)
    (h : ∀ run ∈ runs, ∀ run' ∈ runs', run.window = run'.window →
      Except.Entails (declare run) (declare' run')) :
    Except.Entails (historyOf runs declare) (historyOf runs' declare') := by
  have hsame : List.Forall₂ (fun run run' => run.window = run'.window) runs runs' := by
    rwa [← List.forall₂_eq_eq_eq, List.forall₂_map_left_iff, List.forall₂_map_right_iff] at hwindows
  have hpairs : List.Forall₂ (fun run run' => run.window = run'.window ∧
      Except.Entails (declare run) (declare' run')) runs runs' := by
    refine List.forall₂_iff_zip.mpr ⟨hsame.length_eq, fun {run run'} hzip => ?_⟩
    have hwindow := List.forall₂_zip hsame hzip
    obtain ⟨hrun, hrun'⟩ := List.of_mem_zip hzip
    exact ⟨hwindow, h run hrun run' hrun' hwindow⟩
  refine (List.entails_foldlM (hpairs.imp fun run run' hpair draft => ?_) _).bind fun _ => .refl _
  rw [hpair.1]
  exact hpair.2.bind fun _ => .refl _

/-- A record is the same with its properties in another order. -/
theorem recordHistory_of_perm (name : QualifiedName) (description : String)
    {properties properties' : List (Dated Property)} (hperm : properties.Perm properties') :
    Except.Entails (recordHistory name properties description)
      (recordHistory name properties' description) := by
  intro history h
  obtain ⟨windows, hwindows, h⟩ := Except.bind_eq_ok_iff.mp h
  obtain ⟨windows', hwindows', hpermWindows⟩ := windowsOf_of_perm hperm hwindows
  refine Except.bind_eq_ok_iff.mpr ⟨windows', hwindows', ?_⟩
  refine historyOf_entails (windows_liveRuns_of_perm hpermWindows) ?_ history h
  intro run hrun run' hrun' hwindow
  rw [recordIn, recordIn, live_eq_of_mem_liveRuns hrun, live_eq_of_mem_liveRuns hrun', hwindow]
  exact (membersOf_of_perm _ _ _ hperm hwindows hwindows' (.refl _) (.refl _)).bind
    fun _ => .refl _

/-- A conditional is the same with its members in another order. -/
theorem conditionalHistory_of_perm (name : QualifiedName) (selector : Selector)
    (description : String) {shared shared' : List (Dated Property)}
    {arms arms' : List (Dated Interpretation)} (hshared : shared.Perm shared')
    (harms : arms.Perm arms') :
    Except.Entails (conditionalHistory name selector shared arms description)
      (conditionalHistory name selector shared' arms' description) := by
  intro history h
  obtain ⟨sharedWindows, hsharedWindows, h⟩ := Except.bind_eq_ok_iff.mp h
  obtain ⟨armWindows, harmWindows, h⟩ := Except.bind_eq_ok_iff.mp h
  obtain ⟨sharedWindows', hsharedWindows', hpermShared⟩ := windowsOf_of_perm hshared hsharedWindows
  obtain ⟨armWindows', harmWindows', hpermArms⟩ := windowsOf_of_perm harms harmWindows
  refine Except.bind_eq_ok_iff.mpr ⟨sharedWindows', hsharedWindows', ?_⟩
  refine Except.bind_eq_ok_iff.mpr ⟨armWindows', harmWindows', ?_⟩
  refine historyOf_entails (windows_liveRuns_of_perm (hpermShared.append hpermArms)) ?_ history h
  intro run hrun run' hrun' hwindow
  rw [conditionalIn, conditionalIn, List.partition_eq_filter_filter,
    List.partition_eq_filter_filter, live_eq_of_mem_liveRuns hrun, live_eq_of_mem_liveRuns hrun',
    hwindow, (windowsOf_eq_ok hsharedWindows).length_eq,
    (windowsOf_eq_ok hsharedWindows').length_eq]
  refine (membersOf_of_perm _ _ _ hshared hsharedWindows hsharedWindows' (places_append_left ..)
    (places_append_left ..)).bind fun _ => ?_
  exact (membersOf_of_perm _ _ _ harms harmWindows harmWindows' (places_append_right ..)
    (places_append_right ..)).bind fun _ => .refl _

/-! ### Declarations -/

section Declare

variable (s : Scope) (r : Registry) (spelling description : String)

theorem declareRecord_of_perm {properties properties' : List (Dated Property)}
    (hperm : properties.Perm properties') :
    Except.Entails ((s.declareRecord spelling properties description).run r).kept
      ((s.declareRecord spelling properties' description).run r).kept := by
  rw [declareRecord_eq, declareRecord_eq, EStateM.kept_ofExcept_bind, EStateM.kept_ofExcept_bind]
  exact (recordHistory_of_perm _ _ hperm).bind fun _ => .refl _

theorem declareConditional_of_perm (selector : Selector) {shared shared' : List (Dated Property)}
    {arms arms' : List (Dated Interpretation)} (hshared : shared.Perm shared')
    (harms : arms.Perm arms') :
    Except.Entails ((s.declareConditional spelling selector shared arms description).run r).kept
      ((s.declareConditional spelling selector shared' arms' description).run r).kept := by
  rw [declareConditional_eq, declareConditional_eq, EStateM.kept_ofExcept_bind,
    EStateM.kept_ofExcept_bind]
  exact (conditionalHistory_of_perm _ _ _ hshared harms).bind fun _ => .refl _

end Declare

end Scope

end ApiChronicle
