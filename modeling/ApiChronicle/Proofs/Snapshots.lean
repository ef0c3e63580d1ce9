import ApiChronicle.Proofs.LiveRuns
import ApiChronicle.Proofs.Registry
import Mathlib.Data.List.Induction

/-! # ApiChronicle.Proofs.Snapshots

**What a declaration with dated members is at a version.**

A record or conditional is cut into one snapshot per run of versions, the snapshots
are added to a draft, and the finished timeline becomes a history. Seen from one
version none of this shows (`declared_pointwise`): the type exists there if one of its
members does, or if it has no members at all, and its members are those that are live
at the version, by key and without their dates. Gaps between the runs, runs that touch
and histories without change are all covered by the same statement.

Two facts carry it. The runs lie one after the other, so that each of them becomes an
entry of its own (`historyOf_eq_ok`), and the members of a run are the live members at
each of its versions (`get?_of_membersOf`).
-/

namespace ApiChronicle

open Window (Successive)

/-! ### Members by key -/

section Snapshot

variable {α : Type} {key : α → String}

/-- Members that could be collected are found under their keys, and nothing else is. -/
theorem get?_of_snapshot {members : List α} {m : SortedMap String α}
    (h : snapshot key members = .ok m) {k : String} {x : α} :
    m.get? k = some x ↔ x ∈ members ∧ key x = k := by
  -- the induction goes over what is left of the members, whatever has been taken before
  suffices hrun : ∀ taken : SortedMap String α,
      members.foldlM (fun taken m =>
        if taken.contains (key m) then Except.error (key m)
        else Except.ok (taken.insert (key m) m)) taken = .ok m →
      (m.get? k = some x ↔ (x ∈ members ∧ key x = k) ∨ taken.get? k = some x) by
    rw [hrun _ h]
    simp
  clear h
  induction members with
  | nil =>
      intro taken h
      obtain rfl := Except.ok.inj h
      simp
  | cons a rest ih =>
      intro taken h
      obtain ⟨taken', hstep, hrest⟩ := List.foldlM_cons_eq_ok_iff.mp h
      split at hstep
      · cases hstep
      next hfree =>
      obtain rfl := Except.ok.inj hstep
      rw [ih _ hrest, SortedMap.get?_insert, List.mem_cons, or_and_right, or_assoc]
      by_cases hk : k = key a
      · have hnone : taken.get? k = none := by
          simpa [SortedMap.contains, hk] using hfree
        subst hk
        have hself : a = x ↔ x = a ∧ key x = key a :=
          ⟨fun h => ⟨h.symm, h ▸ rfl⟩, fun h => h.1.symm⟩
        rw [if_pos Std.ReflCmp.compare_self, hnone, Option.some_inj, hself]
        simp [or_comm]
      · have hne : ¬(x = a ∧ key x = k) := fun hx => hk (hx.1 ▸ hx.2.symm)
        simp [hne, hk]

end Snapshot

/-! ### Live members -/

namespace Dated

variable {α : Type}

/-- A member exists at a version: it has come by then, and it has not gone yet. -/
def LiveAt (d : Dated α) (v : Version) : Prop :=
  (∀ since ∈ d.since, since ≤ v) ∧ ∀ stop ∈ d.stop, v < stop

instance (d : Dated α) (v : Version) : Decidable (d.LiveAt v) :=
  inferInstanceAs (Decidable ((∀ since ∈ d.since, since ≤ v) ∧ ∀ stop ∈ d.stop, v < stop))

theorem contains_iff_liveAt {d : Dated α} {w : Window} (h : d.window = .ok w) {v : Version} :
    w.contains v = true ↔ d.LiveAt v := by
  obtain rfl := Window.ofBounds_eq_ok h
  rw [Window.contains_iff, LiveAt]
  refine and_congr ?_ Iff.rfl
  cases d.since with
  | none =>
      rw [Option.getD_none]
      exact iff_of_true (Nat.zero_le _) fun _ hsince => by cases hsince
  | some since => simp

/-- Without its dates, a member is the same member and has neither of them. -/
theorem undated_eq_iff {d x : Dated α} :
    d.undated = x ↔ x.member = d.member ∧ x.since = none ∧ x.stop = none := by
  obtain ⟨member, since, stop⟩ := x
  simp [undated, always, eq_comm]

end Dated

/-- A map shows the members that exist at a version, each under its key and without its
dates, and nothing else. -/
def ShowsLive {α : Type} (key : α → String) (members : List (Dated α)) (v : Version)
    (shown : SortedMap String (Dated α)) : Prop :=
  ∀ k x, shown.get? k = some x ↔ ∃ d ∈ members, d.LiveAt v ∧ key d.member = k ∧
    x.member = d.member ∧ x.since = none ∧ x.stop = none

namespace Scope

variable {α : Type} {members : List (Dated α)} {windows : List Window} {v : Version}

theorem windowsOf_eq_ok (h : windowsOf members = .ok windows) :
    List.Forall₂ (fun d w => d.window = .ok w) members windows :=
  List.mapM_eq_ok_iff.mp (Except.mapError_eq_ok_iff.mp h)

theorem windows_eq_nil_iff (h : windowsOf members = .ok windows) :
    windows = [] ↔ members = [] := by
  rw [← List.length_eq_zero_iff, ← List.length_eq_zero_iff, (windowsOf_eq_ok h).length_eq]

/-- The windows that contain a version stand at the places of the live members. -/
theorem exists_liveAt_iff (h : windowsOf members = .ok windows) {d : Dated α} :
    (∃ i ∈ liveAt windows v, members[i]? = some d) ↔ d ∈ members ∧ d.LiveAt v := by
  have hwindows := windowsOf_eq_ok h
  constructor
  · intro hi
    obtain ⟨i, hi, hd⟩ := hi
    obtain ⟨w, hw, hv⟩ := mem_liveAt_iff.mp hi
    obtain ⟨w', hw', hdw⟩ := List.exists_getElem?_of_forall₂ hwindows hd
    obtain rfl := Option.some.inj (hw.symm.trans hw')
    exact ⟨List.mem_of_getElem? hd, (Dated.contains_iff_liveAt hdw).mp hv⟩
  · intro hd
    obtain ⟨hmem, hlive⟩ := hd
    obtain ⟨i, hi⟩ := List.mem_iff_getElem?.mp hmem
    obtain ⟨w, hw, hdw⟩ := List.exists_getElem?_of_forall₂ hwindows hi
    exact ⟨i, mem_liveAt_iff.mpr ⟨w, hw, (Dated.contains_iff_liveAt hdw).mpr hlive⟩, hi⟩

theorem exists_contains_iff (h : windowsOf members = .ok windows) :
    (∃ w ∈ windows, w.contains v = true) ↔ ∃ d ∈ members, d.LiveAt v := by
  rw [← liveAt_ne_nil_iff]
  constructor
  · intro hlive
    obtain ⟨i, hi⟩ := List.exists_mem_of_ne_nil _ hlive
    obtain ⟨w, hw, -⟩ := mem_liveAt_iff.mp hi
    obtain ⟨d, hd, -⟩ := List.exists_getElem?_of_forall₂ (windowsOf_eq_ok h).flip hw
    exact ⟨d, (exists_liveAt_iff h).mp ⟨i, hi, hd⟩⟩
  · intro hd
    obtain ⟨d, hd⟩ := hd
    obtain ⟨i, hi, -⟩ := (exists_liveAt_iff h).mpr hd
    exact List.ne_nil_of_mem hi

/-- The members at the given places are found under their keys. -/
theorem get?_of_membersOf {name : QualifiedName} {window : Window} {key : α → String}
    {places : List Nat} {shown : SortedMap String (Dated α)}
    (h : membersOf name window key members places = .ok shown) {k : String} {x : Dated α} :
    shown.get? k = some x ↔
      ∃ d, (∃ i ∈ places, members[i]? = some d) ∧ key d.member = k ∧ d.undated = x := by
  rw [get?_of_snapshot (Except.mapError_eq_ok_iff.mp h)]
  simp only [List.mem_filterMap, Option.map_eq_some_iff]
  constructor
  · intro hx
    obtain ⟨⟨i, hi, d, hd, rfl⟩, hk⟩ := hx
    exact ⟨d, ⟨i, hi, hd⟩, hk, rfl⟩
  · intro hx
    obtain ⟨d, ⟨i, hi, hd⟩, hk, rfl⟩ := hx
    exact ⟨⟨i, hi, d, hd, rfl⟩, hk⟩

/-- The members at the places of the windows that contain a version are those that are
live there. -/
theorem showsLive_of_membersOf {name : QualifiedName} {window : Window} {key : α → String}
    {places : List Nat} {shown : SortedMap String (Dated α)}
    (h : membersOf name window key members places = .ok shown)
    (hwindows : windowsOf members = .ok windows)
    (hplaces : ∀ i, i ∈ places ↔ i ∈ liveAt windows v) : ShowsLive key members v shown := by
  intro k x
  rw [get?_of_membersOf h]
  simp only [hplaces, exists_liveAt_iff hwindows, Dated.undated_eq_iff, and_assoc]

/-! ### Histories made of runs -/

section HistoryOf

variable {runs : List Run} {declare : Run → Except DefinitionError Declaration}
  {history : History}

/-- Every run has an entry of its own: the declaration that was made for it, in its window. -/
def Entered (declare : Run → Except DefinitionError Declaration) (runs : List Run)
    (entries : List (Entry Declaration)) : Prop :=
  List.Forall₂ (fun run e => declare run = .ok e.value ∧ run.window = e.window) runs entries

theorem Entered.windows_eq {entries : List (Entry Declaration)} (h : Entered declare runs entries) :
    runs.map Run.window = entries.map Entry.window :=
  List.map_eq_map_of_forall₂ (h.imp fun _ _ hpair => hpair.2)

/-- The draft that is under way has an entry for every run. -/
theorem entered_of_foldlM {draft : Timeline.Draft Declaration}
    (hruns : Successive (runs.map Run.window))
    (h : runs.foldlM (fun draft run => do
        let declaration ← declare run
        let added := (Timeline.Draft.add declaration run.window.since run.window.stop).run draft
        added.kept.mapError .timeline)
      Timeline.Draft.empty = .ok draft) :
    Entered declare runs draft.entries := by
  -- the draft grows at its end, so the induction takes the runs from there
  induction runs using List.reverseRecOn generalizing draft with
  | nil =>
      obtain rfl := Except.ok.inj h
      exact .nil
  | append_singleton runs run ih =>
      obtain ⟨before, hbefore, hlast⟩ := List.foldlM_concat_eq_ok_iff.mp h
      obtain ⟨declaration, hdeclaration, hadd⟩ := Except.bind_eq_ok_iff.mp hlast
      rw [List.map_append] at hruns
      have hentered := ih (hruns.sublist (List.sublist_append_left _ _)) hbefore
      rw [hentered.windows_eq] at hruns
      rw [Timeline.Draft.add_behind declaration hruns] at hadd
      obtain rfl := Except.ok.inj hadd
      exact List.rel_append hentered (.cons ⟨hdeclaration, rfl⟩ .nil)

/-- A history has one entry for each run. -/
theorem historyOf_eq_ok (hruns : Successive (runs.map Run.window))
    (h : historyOf runs declare = .ok history) :
    ∃ t : Timeline Declaration, history = .ofTimeline t ∧ Successive t.windows ∧
      Entered declare runs t.entries := by
  obtain ⟨draft, hdraft, h⟩ := Except.bind_eq_ok_iff.mp h
  obtain ⟨t, hbuild, h⟩ := Except.bind_eq_ok_iff.mp h
  obtain rfl := Except.pure_eq_ok_iff.mp h
  have hentered := entered_of_foldlM hruns hdraft
  rw [← Timeline.Draft.entries_of_build (Except.mapError_eq_ok_iff.mp hbuild)] at hentered
  have hwindows : runs.map Run.window = t.windows := hentered.windows_eq
  exact ⟨t, rfl, hwindows ▸ hruns, hentered⟩

/-- The declaration at a version is the one that was made for the run around it. -/
theorem at?_of_historyOf (hruns : Successive (runs.map Run.window))
    (h : historyOf runs declare = .ok history) {d : Declaration} :
    history.at? v = some d ↔
      ∃ run ∈ runs, run.window.contains v = true ∧ declare run = .ok d := by
  obtain ⟨t, rfl, hwindows, hentered⟩ := historyOf_eq_ok hruns h
  rw [History.at?_ofTimeline, Timeline.at?_eq_some_iff hwindows]
  constructor
  · intro he
    obtain ⟨e, he, hv, rfl⟩ := he
    obtain ⟨run, hrun, hdeclare, hwindow⟩ := List.exists_mem_of_forall₂ hentered.flip he
    exact ⟨run, hrun, hwindow ▸ hv, hdeclare⟩
  · intro hrun
    obtain ⟨run, hrun, hv, hdeclare⟩ := hrun
    obtain ⟨e, he, hvalue, hwindow⟩ := List.exists_mem_of_forall₂ hentered hrun
    exact ⟨e, he, hwindow ▸ hv, Except.ok.inj (hvalue.symm.trans hdeclare)⟩

/-- There is a declaration at the versions of the runs, and at no others. -/
theorem exists_at?_of_historyOf (hruns : Successive (runs.map Run.window))
    (h : historyOf runs declare = .ok history) :
    (∃ d, history.at? v = some d) ↔ ∃ run ∈ runs, run.window.contains v = true := by
  obtain ⟨t, -, -, hentered⟩ := historyOf_eq_ok hruns h
  simp only [at?_of_historyOf hruns h]
  constructor
  · intro hd
    obtain ⟨d, run, hrun, hv, -⟩ := hd
    exact ⟨run, hrun, hv⟩
  · intro hrun
    obtain ⟨run, hrun, hv⟩ := hrun
    obtain ⟨e, -, hdeclare, -⟩ := List.exists_mem_of_forall₂ hentered hrun
    exact ⟨e.value, run, hrun, hv, hdeclare⟩

/-- Every declaration of the history was made for a run. -/
theorem exists_run_of_mem_declarations (hruns : Successive (runs.map Run.window))
    (h : historyOf runs declare = .ok history) {d : Declaration} (hd : d ∈ history.declarations) :
    ∃ run ∈ runs, declare run = .ok d := by
  obtain ⟨t, rfl, -, hentered⟩ := historyOf_eq_ok hruns h
  obtain ⟨e, he, rfl⟩ := History.mem_declarations_ofTimeline hd
  obtain ⟨run, hrun, hdeclare, -⟩ := List.exists_mem_of_forall₂ hentered.flip he
  exact ⟨run, hrun, hdeclare⟩

end HistoryOf

/-! ### Records and conditionals -/

section Declare

variable {s : Scope} {r r' : Registry} {spelling description : String} {use : TypeUse}
  {properties shared : List (Dated Property)} {arms : List (Dated Interpretation)}
  {selector : Selector}

/-- A record in one of its runs. -/
def recordIn (name : QualifiedName) (properties : List (Dated Property)) (description : String)
    (run : Run) : Except DefinitionError Declaration := do
  let live ← membersOf name run.window Property.serialName properties run.live
  return .record ⟨name, live, description⟩

/-- A conditional in one of its runs; the places of the interpretations follow those of the
shared properties. -/
def conditionalIn (name : QualifiedName) (selector : Selector) (shared : List (Dated Property))
    (arms : List (Dated Interpretation)) (description : String) (run : Run) :
    Except DefinitionError Declaration := do
  let (sharedPlaces, armPlaces) := run.live.partition (· < shared.length)
  let liveShared ← membersOf name run.window Property.serialName shared sharedPlaces
  let liveArms ← membersOf name run.window Interpretation.key arms
    (armPlaces.map (· - shared.length))
  return .conditional
    { name := name
      selector := selector.key
      selectorInSideProperty := selector.inSideProperty
      interpretationInNestedProperty := selector.nestedInterpretations
      sharedProperties := liveShared
      interpretations := liveArms
      description := description }

/-- The history of a record, with one snapshot per run of its properties. -/
def recordHistory (name : QualifiedName) (properties : List (Dated Property))
    (description : String) : Except DefinitionError History := do
  let windows ← windowsOf properties
  historyOf (liveRuns windows) (recordIn name properties description)

/-- The history of a conditional, with one snapshot per run of its shared properties and
interpretations together. -/
def conditionalHistory (name : QualifiedName) (selector : Selector)
    (shared : List (Dated Property)) (arms : List (Dated Interpretation)) (description : String) :
    Except DefinitionError History := do
  let sharedWindows ← windowsOf shared
  let armWindows ← windowsOf arms
  historyOf (liveRuns (sharedWindows ++ armWindows))
    (conditionalIn name selector shared arms description)

theorem declareRecord_eq :
    s.declareRecord spelling properties description =
      ofExcept (recordHistory (s.qualify spelling) properties description) >>=
        register (s.qualify spelling) := by
  simp only [recordHistory, EStateM.ofExcept_bind, bind_assoc]
  rfl

theorem declareConditional_eq :
    s.declareConditional spelling selector shared arms description =
      ofExcept (conditionalHistory (s.qualify spelling) selector shared arms description) >>=
        register (s.qualify spelling) := by
  simp only [conditionalHistory, EStateM.ofExcept_bind, bind_assoc]
  rfl

theorem register_run {name : QualifiedName} {history : History} :
    (register name history).run r =
      if r.isTaken name then .error (.duplicateDeclaration name) r
      else .ok (.declaration name) { r with types := r.types.insert name history } := by
  rw [register, EStateM.run_bind, Registry.insert_run]
  cases r.isTaken name <;> rfl

theorem register_eq_ok {name : QualifiedName} {history : History}
    (h : (register name history).run r = .ok use r') :
    (Registry.insert name history).run r = .ok () r' ∧ use = .declaration name := by
  obtain ⟨_, r₁, hinsert, h⟩ := EStateM.bind_eq_ok_iff.mp h
  cases h
  exact ⟨hinsert, rfl⟩

/-- A declared record is registered with one snapshot per run of its properties. -/
theorem declareRecord_eq_ok
    (h : (s.declareRecord spelling properties description).run r = .ok use r') :
    ∃ windows history, windowsOf properties = .ok windows ∧
      historyOf (liveRuns windows) (recordIn (s.qualify spelling) properties description) =
        .ok history ∧
      (Registry.insert (s.qualify spelling) history).run r = .ok () r' ∧
      use = .declaration (s.qualify spelling) := by
  rw [declareRecord_eq] at h
  obtain ⟨history, hhistory, h⟩ := EStateM.ofExcept_bind_eq_ok_iff.mp h
  obtain ⟨windows, hwindows, hhistory⟩ := Except.bind_eq_ok_iff.mp hhistory
  exact ⟨windows, history, hwindows, hhistory, register_eq_ok h⟩

/-- A declared conditional is registered with one snapshot per run of its shared properties
and interpretations together. -/
theorem declareConditional_eq_ok
    (h : (s.declareConditional spelling selector shared arms description).run r = .ok use r') :
    ∃ sharedWindows armWindows history, windowsOf shared = .ok sharedWindows ∧
      windowsOf arms = .ok armWindows ∧
      historyOf (liveRuns (sharedWindows ++ armWindows))
        (conditionalIn (s.qualify spelling) selector shared arms description) = .ok history ∧
      (Registry.insert (s.qualify spelling) history).run r = .ok () r' ∧
      use = .declaration (s.qualify spelling) := by
  rw [declareConditional_eq] at h
  obtain ⟨history, hhistory, h⟩ := EStateM.ofExcept_bind_eq_ok_iff.mp h
  obtain ⟨sharedWindows, hshared, hhistory⟩ := Except.bind_eq_ok_iff.mp hhistory
  obtain ⟨armWindows, harms, hhistory⟩ := Except.bind_eq_ok_iff.mp hhistory
  exact ⟨sharedWindows, armWindows, history, hshared, harms, hhistory, register_eq_ok h⟩

theorem conditionalIn_eq_ok {name : QualifiedName} {run : Run} {d : Declaration}
    (h : conditionalIn name selector shared arms description run = .ok d) :
    ∃ liveShared liveArms,
      membersOf name run.window Property.serialName shared
        (run.live.filter (· < shared.length)) = .ok liveShared ∧
      membersOf name run.window Interpretation.key arms
        ((run.live.filter fun i => !decide (i < shared.length)).map (· - shared.length)) =
          .ok liveArms ∧
      d = .conditional
        { name := name
          selector := selector.key
          selectorInSideProperty := selector.inSideProperty
          interpretationInNestedProperty := selector.nestedInterpretations
          sharedProperties := liveShared
          interpretations := liveArms
          description := description } := by
  rw [conditionalIn, List.partition_eq_filter_filter] at h
  obtain ⟨liveShared, hshared, h⟩ := Except.bind_eq_ok_iff.mp h
  obtain ⟨liveArms, harms, h⟩ := Except.bind_eq_ok_iff.mp h
  exact ⟨liveShared, liveArms, hshared, harms, (Except.pure_eq_ok_iff.mp h).symm⟩

end Declare

/-- **A type shows its live members.** A declared record exists at a version exactly if it has
no properties or one of them is live there, and its properties are the live ones, each under
its serial name and without its dates. A declared conditional exists at a version exactly if
it has no members or a shared property or an interpretation is live there; shared properties
and interpretations are kept apart, the ones by serial name and the others by key. -/
theorem declared_pointwise (s : Scope) (r r' : Registry) (spelling description : String)
    (use : TypeUse) :
    (∀ properties : List (Dated Property),
      (s.declareRecord spelling properties description).run r = .ok use r' →
      ∃ history, r'.get? (s.qualify spelling) = some history ∧ ∀ v,
        ((∃ d, history.at? v = some d) ↔
          properties = [] ∨ ∃ p ∈ properties, p.LiveAt v) ∧
        ∀ d, history.at? v = some d → ∃ shown,
          d = .record ⟨s.qualify spelling, shown, description⟩ ∧
          ShowsLive Property.serialName properties v shown) ∧
    ∀ (selector : Selector) (shared : List (Dated Property)) (arms : List (Dated Interpretation)),
      (s.declareConditional spelling selector shared arms description).run r = .ok use r' →
      ∃ history, r'.get? (s.qualify spelling) = some history ∧ ∀ v,
        ((∃ d, history.at? v = some d) ↔
          (shared = [] ∧ arms = []) ∨ (∃ p ∈ shared, p.LiveAt v) ∨ ∃ a ∈ arms, a.LiveAt v) ∧
        ∀ d, history.at? v = some d → ∃ shownShared shownArms,
          d = .conditional
            { name := s.qualify spelling
              selector := selector.key
              selectorInSideProperty := selector.inSideProperty
              interpretationInNestedProperty := selector.nestedInterpretations
              sharedProperties := shownShared
              interpretations := shownArms
              description := description } ∧
          ShowsLive Property.serialName shared v shownShared ∧
          ShowsLive Interpretation.key arms v shownArms := by
  constructor
  · intro properties h
    obtain ⟨windows, history, hwindows, hhistory, hinsert, -⟩ := declareRecord_eq_ok h
    have hruns := successive_liveRuns windows
    refine ⟨history, by simp [Registry.get?_of_insert hinsert], fun v => ⟨?_, fun d hd => ?_⟩⟩
    · rw [exists_at?_of_historyOf hruns hhistory, exists_liveRun_iff,
        exists_contains_iff hwindows, windows_eq_nil_iff hwindows]
    · obtain ⟨run, hrun, hv, hdeclare⟩ := (at?_of_historyOf hruns hhistory).mp hd
      obtain ⟨shown, hshown, hd⟩ := Except.bind_eq_ok_iff.mp hdeclare
      refine ⟨shown, (Except.pure_eq_ok_iff.mp hd).symm, showsLive_of_membersOf hshown hwindows ?_⟩
      rw [live_of_mem_liveRuns hrun hv]
      exact fun i => Iff.rfl
  · intro selector shared arms h
    obtain ⟨sharedWindows, armWindows, history, hshared, harms, hhistory, hinsert, -⟩ :=
      declareConditional_eq_ok h
    have hruns := successive_liveRuns (sharedWindows ++ armWindows)
    have hlength : shared.length = sharedWindows.length := (windowsOf_eq_ok hshared).length_eq
    refine ⟨history, by simp [Registry.get?_of_insert hinsert], fun v => ⟨?_, fun d hd => ?_⟩⟩
    · rw [exists_at?_of_historyOf hruns hhistory, exists_liveRun_iff, List.append_eq_nil_iff,
        windows_eq_nil_iff hshared, windows_eq_nil_iff harms, ← exists_contains_iff hshared,
        ← exists_contains_iff harms]
      simp only [List.mem_append, or_and_right, exists_or]
    · obtain ⟨run, hrun, hv, hdeclare⟩ := (at?_of_historyOf hruns hhistory).mp hd
      obtain ⟨shownShared, shownArms, hshownShared, hshownArms, rfl⟩ :=
        conditionalIn_eq_ok hdeclare
      rw [live_of_mem_liveRuns hrun hv, hlength] at hshownShared hshownArms
      exact ⟨shownShared, shownArms, rfl,
        showsLive_of_membersOf hshownShared hshared fun i => mem_liveAt_append_left,
        showsLive_of_membersOf hshownArms harms fun i => mem_liveAt_append_right⟩

/-- An account's age, kept as a number for a while and as a text later. -/
def ages : List (Dated Property) :=
  [⟨(Property.make "age" (.primitive .integer) "").member, some .dated20190221, some .dated20190516⟩,
   ⟨(Property.make "age" (.primitive .string) "").member, some .dated20201117, none⟩]

/-- An account may belong to a guild, in the time between the two ages. -/
def guilds : List (Dated Interpretation) :=
  [⟨(Interpretation.make "guild" (.primitive .stringId) "").member, some .dated20190516,
    some .dated20201117⟩]

/-- An account has no shape before its first age and, unless it may belong to a guild then,
between the two. At the first age it shows the number, and not when it came or when it will
go. -/
theorem declared_pointwise_ages :
    (∃ use r history, (top.declareRecord "Account" ages "").run .empty = .ok use r ∧
      r.get? (top.qualify "Account") = some history ∧
      history.at? .classic = none ∧ history.at? .dated20190521 = none ∧
      ∃ shown, history.at? .dated20190322 = some (.record ⟨top.qualify "Account", shown, ""⟩) ∧
        shown.get? "age" = some ⟨(Property.make "age" (.primitive .integer) "").member, none, none⟩ ∧
        shown.get? "guild" = none) ∧
    ∃ use r history,
      (top.declareConditional "Account" ⟨"owner", false, true⟩ ages guilds "").run .empty =
        .ok use r ∧
      r.get? (top.qualify "Account") = some history ∧
      history.at? .classic = none ∧ ∃ d, history.at? .dated20190521 = some d := by
  have hnone : ∀ {o : Option Declaration} {P : Prop}, ((∃ d, o = some d) ↔ P) → ¬P → o = none :=
    fun hiff hP => Option.eq_none_iff_forall_ne_some.mpr fun d hd => hP (hiff.mp ⟨d, hd⟩)
  constructor
  · obtain ⟨r, hkept⟩ := Except.isOk_iff_exists.mp
      (show ((top.declareRecord "Account" ages "").run .empty).kept.isOk = true by decide +kernel)
    obtain ⟨use, h⟩ := EStateM.kept_eq_ok_iff.mp hkept
    obtain ⟨history, hget, hpointwise⟩ :=
      (declared_pointwise top .empty r "Account" "" use).1 ages h
    obtain ⟨d, hd⟩ := (hpointwise .dated20190322).1.mpr (by decide)
    obtain ⟨shown, rfl, hshown⟩ := (hpointwise .dated20190322).2 d hd
    refine ⟨use, r, history, h, hget, hnone (hpointwise _).1 (by decide),
      hnone (hpointwise _).1 (by decide), shown, hd, ?_, ?_⟩
    · exact (hshown _ _).mpr
        ⟨_, List.mem_cons_self, by decide, by decide +kernel, rfl, rfl, rfl⟩
    · refine Option.eq_none_iff_forall_ne_some.mpr fun x hx => ?_
      obtain ⟨p, hp, -, hkey, -⟩ := (hshown _ x).mp hx
      revert p
      decide +kernel
  · obtain ⟨r, hkept⟩ := Except.isOk_iff_exists.mp
      (show ((top.declareConditional "Account" ⟨"owner", false, true⟩ ages guilds "").run
        .empty).kept.isOk = true by decide +kernel)
    obtain ⟨use, h⟩ := EStateM.kept_eq_ok_iff.mp hkept
    obtain ⟨history, hget, hpointwise⟩ :=
      (declared_pointwise top .empty r "Account" "" use).2 ⟨"owner", false, true⟩ ages guilds h
    exact ⟨use, r, history, h, hget, hnone (hpointwise _).1 (by decide),
      (hpointwise _).1.mpr (by decide)⟩

end Scope

end ApiChronicle
