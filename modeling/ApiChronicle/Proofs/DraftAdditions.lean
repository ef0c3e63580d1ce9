import ApiChronicle.Proofs.TimelineOrder

/-! # ApiChronicle.Proofs.DraftAdditions

**What an addition does to a draft**, seen from one version.

A draft is a partial map from versions to values (`Timeline.Draft.at?`), and an addition
overwrites it on the window of the new entry. It may do so only where the map is not
defined yet, with one exception: an open entry that started earlier *gives way*. Such an
entry loses every version from the start of the new one on, also the versions behind the
new one's stop. So an addition can leave a version without a value that had one before.

Whether an addition is possible is decided on the entries as they would be after the open
one has stopped. `exists_add_iff` and `fault_of_add` say it of the entries as they are:
every entry that shares a version with the new one is in its way, unless it gives way. The
open entry really stops only after that, so a refused addition leaves it open.
-/

namespace ApiChronicle

open Window (Successive)

/-- An entry is in the way of a new one: they share a version, and it does not give way. -/
def Entry.InWayOf {α : Type} (e new : Entry α) : Prop :=
  ¬e.GivesWay new.since ∧ e.window.Meets new.window

namespace Timeline.Draft

variable {α : Type} {d d' : Draft α} {e new : Entry α} {entries : List (Entry α)} {v : Version}

/-- The value a draft has for a version. -/
def at? (d : Draft α) (v : Version) : Option α :=
  (d.entries.find? (·.window.contains v)).map Entry.value

theorem at?_eq_some_iff (h : Successive d.windows) {x : α} :
    d.at? v = some x ↔ ∃ e ∈ d.entries, e.window.contains v = true ∧ e.value = x :=
  Entry.map_find?_eq_some_iff h

theorem at?_eq_none_iff : d.at? v = none ↔ ∀ e ∈ d.entries, e.window.contains v = false := by
  rw [at?, Option.map_eq_none_iff, List.find?_eq_none]
  simp only [Bool.not_eq_true]

theorem mem_insertBySince : e ∈ insertBySince new entries ↔ e = new ∨ e ∈ entries := by
  have hsplit := List.takeWhile_append_dropWhile (l := entries) (p := (·.since < new.since))
  have hmem : e ∈ entries ↔ e ∈ entries.takeWhile (·.since < new.since) ∨
      e ∈ entries.dropWhile (·.since < new.since) := by
    rw [← List.mem_append, hsplit]
  rw [insertBySince, List.mem_append, List.mem_cons, hmem]
  tauto

/-! ### Which additions are possible -/

/-- Where the new entry starts, an entry that gives way has stopped. -/
theorem not_overlaps_closed (e new : Entry α) :
    ({ e with stop := some new.since } : Entry α).window.overlaps new.window = false := by
  refine Bool.eq_false_iff.mpr fun h => ?_
  have hlt : new.since < new.since := (Window.overlaps_iff.mp h).2 new.since rfl
  exact Nat.lt_irrefl _ hlt

/-- An addition fails because the new window is none, or because an entry is in its way. -/
theorem fault_of_add (h : Successive d.windows) {fault : TimelineError}
    (hadd : (add new.value new.since new.stop).run d = .error fault d') :
    (∃ stop ∈ new.stop, stop ≤ new.since ∧ fault = .malformed new.since stop) ∨
      new.window.Valid ∧ ∃ e ∈ d.entries, e.InWayOf new ∧
        fault = .overlapping new.window e.window := by
  obtain ⟨-, hwindow | ⟨hvalid, hfree⟩⟩ := add_eq_error hadd
  · exact Or.inl (Window.ofBounds_eq_error_iff.mp hwindow)
  have hclosed : ∀ e ∈ closeOpen new.since d.entries, e.window.Valid := fun e he =>
    (successive_closeOpen h).valid _ (List.mem_map_of_mem he)
  obtain ⟨existing, hexisting, hoverlap, hfault⟩ := checkFree_eq_error hclosed hfree
  change existing.window.overlaps new.window = true at hoverlap
  refine Or.inr ⟨hvalid, existing, ?_⟩
  rcases (mem_closeOpen_iff h).mp hexisting with ⟨hmem, hstay⟩ | ⟨e, -, -, rfl⟩
  · have hmeet :=
      (Window.overlaps_iff_meets (h.valid _ (List.mem_map_of_mem hmem)) hvalid).mp hoverlap
    exact ⟨hmem, ⟨hstay, hmeet⟩, hfault⟩
  · rw [not_overlaps_closed] at hoverlap
    cases hoverlap

/-- An addition is possible if the new window is one and no entry is in its way. -/
theorem exists_add_iff (h : Successive d.windows) :
    (∃ d', (add new.value new.since new.stop).run d = .ok () d') ↔
      new.window.Valid ∧ ∀ e ∈ d.entries, ¬e.InWayOf new := by
  constructor
  · intro hadd
    obtain ⟨d', hadd⟩ := hadd
    obtain ⟨hvalid, hfree, -⟩ := add_eq_ok_iff.mp hadd
    refine ⟨hvalid, fun e he hway => ?_⟩
    obtain ⟨hstay, hmeet⟩ := hway
    obtain ⟨-, hapart⟩ := hfree e ((mem_closeOpen_iff h).mpr (Or.inl ⟨he, hstay⟩))
    have hoverlap :=
      (Window.overlaps_iff_meets (h.valid _ (List.mem_map_of_mem he)) hvalid).mpr hmeet
    exact Bool.false_ne_true (hapart.symm.trans hoverlap)
  · intro hfree
    obtain ⟨hvalid, hfree⟩ := hfree
    cases hadd : (add new.value new.since new.stop).run d with
    | ok _ d' => exact ⟨d', rfl⟩
    | error fault d' =>
        rcases fault_of_add h hadd with ⟨stop, hstop, hle, -⟩ | ⟨-, e, he, hway, -⟩
        · exact absurd (hvalid stop hstop) (Nat.not_lt_of_le hle)
        · exact absurd hway (hfree e he)

/-! ### The values after an addition -/

/-- An entry that gives way holds what it held before the start of the new one. -/
theorem contains_closed_iff (h : e.GivesWay new.since) :
    ({ e with stop := some new.since } : Entry α).window.contains v = true ↔
      e.window.contains v = true ∧ v < new.since := by
  have hopen : e.stop = none := h.1
  simp [Window.contains_iff, Entry.window, hopen]

/-- What a draft holds after an addition: the new entry, the entries that stayed, and what
is left of the one that gave way. -/
theorem mem_entries_add (h : Successive d.windows)
    (hadd : (add new.value new.since new.stop).run d = .ok () d') :
    e ∈ d'.entries ↔ e = new ∨ (e ∈ d.entries ∧ ¬e.GivesWay new.since) ∨
      ∃ e' ∈ d.entries, e'.GivesWay new.since ∧ e = { e' with stop := some new.since } := by
  obtain ⟨-, -, rfl⟩ := add_eq_ok_iff.mp hadd
  rw [mem_insertBySince, mem_closeOpen_iff h]

/-- A draft after an addition: the new value in its window, nothing where an entry has
given way to it outside of that window, and everywhere else what was there before. -/
theorem at?_add (h : Successive d.windows)
    (hadd : (add new.value new.since new.stop).run d = .ok () d') (v : Version) :
    d'.at? v =
      if new.window.contains v = true then some new.value
      else if new.since ≤ v ∧
        ∃ e ∈ d.entries, e.GivesWay new.since ∧ e.window.contains v = true then none
      else d.at? v := by
  have h' := successive_add h hadd
  split
  · next hnew =>
    exact (at?_eq_some_iff h').mpr ⟨new, (mem_entries_add h hadd).mpr (Or.inl rfl), hnew, rfl⟩
  next hnew =>
  split
  · next hlost =>
    obtain ⟨hle, e, he, hgive, hv⟩ := hlost
    refine at?_eq_none_iff.mpr fun e' he' => Bool.eq_false_iff.mpr fun hv' => ?_
    rcases (mem_entries_add h hadd).mp he' with rfl | ⟨he', hstay⟩ | ⟨e₁, -, hgive₁, rfl⟩
    · exact hnew hv'
    · -- the one that gives way is the only entry with the version
      obtain rfl := h.eq_of_contains he hv he' hv'
      exact hstay hgive
    · exact absurd ((contains_closed_iff hgive₁).mp hv').2 (Nat.not_lt_of_le hle)
  · next hkept =>
    refine Option.ext fun x => ?_
    rw [at?_eq_some_iff h', at?_eq_some_iff h]
    constructor
    · intro hx
      obtain ⟨e, he, hv, rfl⟩ := hx
      rcases (mem_entries_add h hadd).mp he with rfl | ⟨he, -⟩ | ⟨e₁, he₁, hgive, rfl⟩
      · exact absurd hv hnew
      · exact ⟨e, he, hv, rfl⟩
      · exact ⟨e₁, he₁, ((contains_closed_iff hgive).mp hv).1, rfl⟩
    · intro hx
      obtain ⟨e, he, hv, rfl⟩ := hx
      by_cases hgive : e.GivesWay new.since
      · have hlt : v < new.since :=
          Nat.lt_of_not_le fun hle => hkept ⟨hle, e, he, hgive, hv⟩
        exact ⟨_, (mem_entries_add h hadd).mpr (Or.inr (Or.inr ⟨e, he, hgive, rfl⟩)),
          (contains_closed_iff hgive).mpr ⟨hv, hlt⟩, rfl⟩
      · exact ⟨e, (mem_entries_add h hadd).mpr (Or.inr (Or.inl ⟨he, hgive⟩)), hv, rfl⟩

/-- **An addition overwrites a draft on one window.** Whatever has been added before, an
addition succeeds exactly if its window starts before it stops and no entry is in its way:
an entry that shares a version with it, unless it is an open one that started earlier. The
draft then has the new value at the versions of the window, no value at other versions from
its start on that belonged to the open entry, and its old values elsewhere. A refused
addition leaves the draft as it was. It is refused as malformed if the window is the wrong
way round, and otherwise for an entry that is in the way. -/
theorem add_pointwise (additions : List (Entry α)) (new : Entry α) :
    let d := ofAdditions additions
    let outcome := (add new.value new.since new.stop).run d
    ((∃ d', outcome = .ok () d') ↔ new.window.Valid ∧ ∀ e ∈ d.entries, ¬e.InWayOf new) ∧
    (∀ d', outcome = .ok () d' → ∀ v, d'.at? v =
      if new.window.contains v = true then some new.value
      else if new.since ≤ v ∧
        ∃ e ∈ d.entries, e.GivesWay new.since ∧ e.window.contains v = true then none
      else d.at? v) ∧
    ∀ fault d', outcome = .error fault d' → d' = d ∧
      ((∃ stop ∈ new.stop, stop ≤ new.since ∧ fault = .malformed new.since stop) ∨
        new.window.Valid ∧ ∃ e ∈ d.entries, e.InWayOf new ∧
          fault = .overlapping new.window e.window) := by
  intro d outcome
  have h : Successive d.windows := successive_ofAdditions additions
  refine ⟨exists_add_iff h, fun d' hadd => at?_add h hadd, fun fault d' hadd => ⟨?_, ?_⟩⟩
  · exact (add_eq_error hadd).1
  · exact fault_of_add h hadd

/-- A value for a few versions. -/
def interruption : Entry String := ⟨"new", .dated20190322, some .dated20190516⟩

/-- A value that comes too late for the versions it is meant for. -/
def latecomer : Entry String := ⟨"late", .dated20190221, some .dated20190322⟩

/-- A value that stops before it starts. -/
def reversed : Entry String := ⟨"reversed", .dated20190322, some .dated20190221⟩

/-- An interruption takes over from an open value, which does not come back behind it. A
latecomer meets what is there by then, and nothing changes. Neither does it when a value is
refused that an open one would have given way to. -/
theorem add_pointwise_interruption :
    (∃ d', (add "new" .dated20190322 (some .dated20190516)).run
        (ofAdditions [⟨"old", .classic, none⟩]) = .ok () d' ∧
      d'.at? .dated20190221 = some "old" ∧ d'.at? .dated20190322 = some "new" ∧
      d'.at? .dated20190521 = none) ∧
    (∃ fault d', (add "late" .dated20190221 (some .dated20190322)).run
        (ofAdditions [⟨"old", .classic, none⟩, interruption]) = .error fault d' ∧
      d' = ofAdditions [⟨"old", .classic, none⟩, interruption] ∧
      ∃ e ∈ (ofAdditions [⟨"old", .classic, none⟩, interruption]).entries,
        e.InWayOf latecomer ∧ fault = .overlapping latecomer.window e.window) ∧
    ∃ fault d', (add "reversed" .dated20190322 (some .dated20190221)).run
        (ofAdditions [⟨"old", .classic, none⟩]) = .error fault d' ∧
      d' = ofAdditions [⟨"old", .classic, none⟩] ∧ d'.at? .dated20190322 = some "old" := by
  refine ⟨?_, ?_, ?_⟩
  · obtain ⟨-, hvalues, -⟩ := add_pointwise [⟨"old", .classic, none⟩] interruption
    have hat := hvalues _ rfl
    exact ⟨_, rfl, hat .dated20190221, hat .dated20190322, hat .dated20190521⟩
  · obtain ⟨-, -, hfaults⟩ := add_pointwise [⟨"old", .classic, none⟩, interruption] latecomer
    obtain ⟨hleft, hmalformed | ⟨-, hway⟩⟩ := hfaults _ _ rfl
    · obtain ⟨stop, hstop, hle, -⟩ := hmalformed
      obtain rfl := Option.some.inj hstop
      exact absurd hle (by decide)
    · exact ⟨_, _, rfl, hleft, hway⟩
  · obtain ⟨-, -, hfaults⟩ := add_pointwise [⟨"old", .classic, none⟩] reversed
    exact ⟨_, _, rfl, (hfaults _ _ rfl).1, rfl⟩

end Timeline.Draft

end ApiChronicle
