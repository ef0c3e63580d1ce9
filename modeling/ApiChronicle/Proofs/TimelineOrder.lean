import ApiChronicle.Proofs.Fallible
import ApiChronicle.Proofs.Timeline
import Mathlib.Data.List.TakeWhile

/-! # ApiChronicle.Proofs.TimelineOrder

**Entries stay one after the other**, whatever is done to a timeline.

`Window.Successive` says what a run of windows is like in which no version has two
places: the windows are listed by their starts, each has stopped when the next one
starts, and so only the last one may be open-ended. It is a matter of the windows
alone. Values play no part in it, and neither does the start of the first window or
the stop of the last one, as long as these two windows stay valid: that is why the
outer bounds can be moved freely (`successive_setLastStop`).

A draft keeps its windows successive under every addition, refused ones included,
and a timeline keeps them under every operation (`Timeline.Made.successive`).
-/

namespace ApiChronicle

namespace Window

variable {w u : Window} {v : Version} {windows : List Window}

/-- A window has stopped when another one starts. -/
def Before (w u : Window) : Prop := ∃ stop ∈ w.stop, stop ≤ u.since

/-- Windows one after the other. -/
structure Successive (windows : List Window) : Prop where
  /-- They are listed by their starts. -/
  sorted : windows.Pairwise fun w u => w.since < u.since
  /-- Each of them stops, if at all, after it starts. -/
  valid : ∀ w ∈ windows, w.Valid
  /-- Each of them has stopped when a later one starts. -/
  apart : windows.Pairwise Before
  /-- Only the last one may be open-ended. -/
  closed : ∀ w ∈ windows.dropLast, w.stop.isSome = true

theorem valid_of_ofBounds {since : Version} {stop : Option Version}
    (h : ofBounds since stop = .ok w) : w.Valid := by
  intro stop' hstop'
  obtain rfl := ofBounds_eq_ok h
  obtain rfl : stop = some stop' := hstop'
  simp only [ofBounds] at h
  split at h
  · next hlt => exact hlt
  · cases h

theorem ofBounds_of_valid (h : w.Valid) : ofBounds w.since w.stop = .ok w := by
  obtain ⟨since, stop⟩ := w
  cases stop with
  | none => rfl
  | some stop => exact if_pos (h stop rfl)

/-- Bounds that are refused are the wrong way round. -/
theorem ofBounds_eq_error_iff {since : Version} {stop : Option Version} {fault : TimelineError} :
    ofBounds since stop = .error fault ↔
      ∃ stop' ∈ stop, stop' ≤ since ∧ fault = .malformed since stop' := by
  cases stop with
  | none => simp [ofBounds]
  | some stop =>
      have hle : stop ≤ since ↔ ¬since < stop := Nat.not_lt.symm
      by_cases hlt : since < stop <;> simp [ofBounds, hle, hlt, eq_comm]

theorem Before.since_lt (h : w.Before u) (hw : w.Valid) : w.since < u.since := by
  obtain ⟨stop, hstop, hle⟩ := h
  exact Nat.lt_of_lt_of_le (hw stop hstop) hle

/-- No version lies in a window and in one before it. -/
theorem Before.not_contains (h : w.Before u) (hw : w.contains v = true) :
    u.contains v = false := by
  obtain ⟨stop, hstop, hle⟩ := h
  refine Bool.eq_false_iff.mpr fun hu => ?_
  have hlt : v < stop := (contains_iff.mp hw).2 stop hstop
  exact Nat.lt_irrefl _ (Nat.lt_of_lt_of_le hlt (Nat.le_trans hle (contains_iff.mp hu).1))

/-- A window that starts no later than another and shares no version with it has
stopped by then. -/
theorem before_of_not_overlaps (hu : u.Valid) (hle : w.since ≤ u.since)
    (h : w.overlaps u = false) : w.Before u := by
  by_contra hbefore
  refine Bool.eq_false_iff.mp h (overlaps_iff.mpr ⟨fun stop hstop => ?_, fun stop hstop => ?_⟩)
  · exact Nat.lt_of_le_of_lt hle (hu stop hstop)
  · exact Nat.lt_of_not_le fun hle => hbefore ⟨stop, hstop, hle⟩

theorem overlaps_comm : w.overlaps u = u.overlaps w := Bool.and_comm ..

/-- Windows overlap if they share a version. -/
theorem overlaps_of_contains (hw : w.contains v = true) (hu : u.contains v = true) :
    w.overlaps u = true := by
  obtain ⟨hwsince, hwstop⟩ := contains_iff.mp hw
  obtain ⟨husince, hustop⟩ := contains_iff.mp hu
  exact overlaps_iff.mpr ⟨fun stop hstop => Nat.lt_of_le_of_lt hwsince (hustop stop hstop),
    fun stop hstop => Nat.lt_of_le_of_lt husince (hwstop stop hstop)⟩

/-- Windows meet if they share a version. -/
def Meets (w u : Window) : Prop := ∃ v, w.contains v = true ∧ u.contains v = true

instance (w u : Window) : Decidable (w.Meets u) :=
  decidable_of_iff (∃ v ∈ Version.all, w.contains v = true ∧ u.contains v = true)
    (exists_congr fun v => and_iff_right v.mem_all)

/-- Valid windows that overlap meet; the later one of their starts is in both. -/
theorem overlaps_iff_meets (hw : w.Valid) (hu : u.Valid) : w.overlaps u = true ↔ w.Meets u := by
  refine ⟨fun h => ?_, fun ⟨v, hwv, huv⟩ => overlaps_of_contains hwv huv⟩
  obtain ⟨hbefore, hbehind⟩ := overlaps_iff.mp h
  rcases Nat.le_total w.since.rank u.since.rank with hle | hle
  · exact ⟨u.since, contains_iff.mpr ⟨hle, hbehind⟩, hu.contains_since⟩
  · exact ⟨w.since, hw.contains_since, contains_iff.mpr ⟨hle, hbefore⟩⟩

/-- The order of valid windows that are apart says the rest. -/
theorem successive_iff :
    Successive windows ↔ (∀ w ∈ windows, w.Valid) ∧ windows.Pairwise Before := by
  constructor
  · exact fun h => ⟨h.valid, h.apart⟩
  · intro h
    obtain ⟨hvalid, hapart⟩ := h
    refine ⟨?_, hvalid, hapart, fun w hw => ?_⟩
    · exact hapart.imp_of_mem fun hw _ hbefore => hbefore.since_lt (hvalid _ hw)
    · -- whatever is not last comes before the last one
      have hne : windows ≠ [] := fun hnil => by simp [hnil] at hw
      rw [← List.dropLast_concat_getLast hne] at hapart
      obtain ⟨stop, hstop, -⟩ :=
        (List.pairwise_append.mp hapart).2.2 w hw _ (List.mem_singleton_self _)
      exact Option.isSome_iff_exists.mpr ⟨stop, hstop⟩

theorem successive_nil : Successive [] :=
  successive_iff.mpr ⟨fun _ hw => absurd hw List.not_mem_nil, .nil⟩

theorem successive_cons :
    Successive (w :: windows) ↔ w.Valid ∧ (∀ u ∈ windows, w.Before u) ∧ Successive windows := by
  rw [successive_iff, successive_iff, List.forall_mem_cons, List.pairwise_cons]
  tauto

theorem successive_singleton (h : w.Valid) : Successive [w] :=
  successive_iff.mpr ⟨fun _ hu => List.mem_singleton.mp hu ▸ h, List.pairwise_singleton _ _⟩

theorem Successive.sublist {windows' : List Window} (h : Successive windows)
    (hsub : windows'.Sublist windows) : Successive windows' :=
  successive_iff.mpr ⟨fun w hw => h.valid w (hsub.subset hw), h.apart.sublist hsub⟩

/-- A version lies in one of the windows at most. -/
theorem Successive.pairwise_not_contains (h : Successive windows) (v : Version) :
    windows.Pairwise fun w u => ¬(w.contains v = true ∧ u.contains v = true) := by
  refine h.apart.imp fun {w u} hbefore => ?_
  intro hboth
  rw [hbefore.not_contains hboth.1] at hboth
  exact absurd hboth.2 Bool.false_ne_true

/-- Of two things with windows one after the other, one has stopped when the other starts. -/
theorem Successive.eq_or_before {β : Type} {f : β → Window} {l : List β}
    (h : Successive (l.map f)) {a b : β} (ha : a ∈ l) (hb : b ∈ l) :
    a = b ∨ (f a).Before (f b) ∨ (f b).Before (f a) := by
  have happart := List.pairwise_map.mp h.apart
  refine List.Pairwise.forall_of_forall_of_flip
    (R := fun a b => a = b ∨ (f a).Before (f b) ∨ (f b).Before (f a))
    (fun _ _ => Or.inl rfl) ?_ ?_ ha hb
  · exact happart.imp fun hbefore => Or.inr (Or.inl hbefore)
  · exact happart.imp fun hbefore => Or.inr (Or.inr hbefore)

theorem Successive.eq_of_contains {β : Type} {f : β → Window} {l : List β}
    (h : Successive (l.map f)) {a b : β} (ha : a ∈ l) (hav : (f a).contains v = true)
    (hb : b ∈ l) (hbv : (f b).contains v = true) : a = b := by
  rcases h.eq_or_before ha hb with rfl | hbefore | hbefore
  · rfl
  · rw [hbefore.not_contains hav] at hbv
    cases hbv
  · rw [hbefore.not_contains hbv] at hav
    cases hav

/-- A window that contains every version stands alone. -/
theorem Successive.eq_singleton (h : Successive windows) (hw : w ∈ windows)
    (hall : ∀ v, w.contains v = true) : windows = [w] := by
  have honly : ∀ u ∈ windows, u = w := fun u hu =>
    Successive.eq_of_contains (f := id) (by rwa [List.map_id]) hu (h.valid u hu).contains_since
      hw (hall u.since)
  cases windows with
  | nil => cases hw
  | cons u rest =>
      obtain rfl := honly u List.mem_cons_self
      have hrest : rest = [] := by
        refine List.eq_nil_iff_forall_not_mem.mpr fun x hx => ?_
        have hlt := (List.pairwise_cons.mp h.sorted).1 x hx
        rw [honly x (List.mem_cons_of_mem _ hx)] at hlt
        exact Nat.lt_irrefl _ hlt
      rw [hrest]

end Window

open Window (Successive)

namespace Entry

variable {α : Type} {entries : List (Entry α)} {v : Version}

/-- Entries one after the other have at most one place for a version. -/
theorem length_filter_contains_le (h : Successive (entries.map window)) (v : Version) :
    (entries.filter (·.window.contains v)).length ≤ 1 := by
  have happart := (List.pairwise_map.mp (h.pairwise_not_contains v)).sublist
    (List.filter_sublist (p := fun e : Entry α => e.window.contains v))
  have hall : ∀ e ∈ entries.filter (·.window.contains v), e.window.contains v = true :=
    fun e he => (List.mem_filter.mp he).2
  cases hkept : entries.filter (·.window.contains v) with
  | nil => exact Nat.zero_le 1
  | cons e rest =>
      cases rest with
      | nil => exact Nat.le_refl 1
      | cons e' rest =>
          rw [hkept] at happart hall
          have hboth := (List.pairwise_cons.mp happart).1 e' List.mem_cons_self
          refine absurd ⟨hall e List.mem_cons_self, hall e' ?_⟩ hboth
          exact List.mem_cons_of_mem _ List.mem_cons_self

/-- The entry that is found for a version is the one that holds it. -/
theorem find?_eq_some_iff (h : Successive (entries.map window)) {e : Entry α} :
    entries.find? (·.window.contains v) = some e ↔ e ∈ entries ∧ e.window.contains v = true := by
  constructor
  · intro hfound
    exact ⟨List.mem_of_find?_eq_some hfound,
      List.find?_some (p := fun e : Entry α => e.window.contains v) hfound⟩
  · intro hholds
    obtain ⟨he, hv⟩ := hholds
    obtain ⟨e', hfound⟩ := Option.isSome_iff_exists.mp
      (List.find?_isSome (p := fun e : Entry α => e.window.contains v).mpr ⟨e, he, hv⟩)
    have hv' := List.find?_some (p := fun e : Entry α => e.window.contains v) hfound
    rw [hfound, h.eq_of_contains he hv (List.mem_of_find?_eq_some hfound) hv']

theorem map_find?_eq_some_iff (h : Successive (entries.map window)) {x : α} :
    (entries.find? (·.window.contains v)).map value = some x ↔
      ∃ e ∈ entries, e.window.contains v = true ∧ e.value = x := by
  simp only [Option.map_eq_some_iff, find?_eq_some_iff h, and_assoc]

/-- An open entry that started before a version: it stops there when another entry is
added that starts at the version. -/
def GivesWay (e : Entry α) (since : Version) : Prop := e.stop = none ∧ e.since < since

instance (e : Entry α) (since : Version) : Decidable (e.GivesWay since) :=
  inferInstanceAs (Decidable (e.stop = none ∧ e.since < since))

end Entry

namespace Timeline

variable {α β ε : Type}

/-! ### Drafts -/

namespace Draft

/-- The windows of the entries. -/
def windows (d : Draft α) : List Window := d.entries.map Entry.window

/-- An open entry among entries one after the other is the last one, so that it is closed
whether or not it is looked for among the rest. -/
theorem closeOpen_eq_map {since : Version} {entries : List (Entry α)}
    (h : Successive (entries.map Entry.window)) :
    closeOpen since entries =
      entries.map fun e => if e.GivesWay since then { e with stop := some since } else e := by
  induction entries with
  | nil => rfl
  | cons e rest ih =>
      obtain ⟨-, hbefore, hrest⟩ := Window.successive_cons.mp h
      cases hstop : e.stop with
      | some stop => simp [closeOpen, Entry.GivesWay, hstop, ih hrest]
      | none =>
          have hlast : rest = [] := by
            refine List.eq_nil_iff_forall_not_mem.mpr fun e' he' => ?_
            obtain ⟨stop, hmem, -⟩ := hbefore _ (List.mem_map_of_mem he')
            cases hstop.symm.trans hmem
          simp [closeOpen, Entry.GivesWay, hstop, hlast]

/-- An entry that gives way stops where the new one starts; any other entry stays as it
is. -/
theorem mem_closeOpen_iff {since : Version} {entries : List (Entry α)} {e : Entry α}
    (h : Successive (entries.map Entry.window)) :
    e ∈ closeOpen since entries ↔
      (e ∈ entries ∧ ¬e.GivesWay since) ∨
        ∃ e' ∈ entries, e'.GivesWay since ∧ e = { e' with stop := some since } := by
  rw [closeOpen_eq_map h, List.mem_map]
  constructor
  · intro he
    obtain ⟨e', he', rfl⟩ := he
    split
    · next hgive => exact Or.inr ⟨e', he', hgive, rfl⟩
    · next hstay => exact Or.inl ⟨he', hstay⟩
  · intro he
    rcases he with ⟨he, hstay⟩ | ⟨e', he', hgive, rfl⟩
    · exact ⟨e, he, if_neg hstay⟩
    · exact ⟨e', he', if_pos hgive⟩

/-- Closing an entry moves no start and no stop that is there already, so the entries
stay apart. -/
theorem successive_closeOpen {since : Version} {entries : List (Entry α)}
    (h : Successive (entries.map Entry.window)) :
    Successive ((closeOpen since entries).map Entry.window) := by
  refine Window.successive_iff.mpr ⟨fun w hw => ?_, ?_⟩
  · obtain ⟨e, he, rfl⟩ := List.mem_map.mp hw
    rcases (mem_closeOpen_iff h).mp he with ⟨he, -⟩ | ⟨e', -, ⟨-, hlt⟩, rfl⟩
    · exact h.valid _ (List.mem_map_of_mem he)
    · intro stop hstop
      obtain rfl := Option.some.inj hstop
      exact hlt
  · rw [closeOpen_eq_map h]
    refine List.pairwise_map.mpr (List.pairwise_map.mpr ?_)
    refine (List.pairwise_map.mp h.apart).imp fun {e e'} hbefore => ?_
    obtain ⟨stop, hstop, hle⟩ := hbefore
    -- an entry with another one behind it has a stop, so it is not the one that is closed
    have hstay : ¬e.GivesWay since := fun hgive => by cases hgive.1.symm.trans hstop
    rw [if_neg hstay]
    refine ⟨stop, hstop, ?_⟩
    split <;> exact hle

/-- Entries are free of a window if their own bounds make windows that do not overlap it. -/
theorem checkFree_eq_ok_iff {window : Window} {entries : List (Entry α)} :
    checkFree window entries = .ok () ↔
      ∀ e ∈ entries, e.window.Valid ∧ e.window.overlaps window = false := by
  induction entries with
  | nil => simp [checkFree]
  | cons e rest ih =>
      rw [checkFree, Except.bind_eq_ok_iff, List.forall_mem_cons, ← ih]
      constructor
      · intro h
        obtain ⟨existing, hexisting, h⟩ := h
        have hvalid := Window.valid_of_ofBounds hexisting
        obtain rfl := Window.ofBounds_eq_ok hexisting
        split at h
        · cases h
        · next hfree => exact ⟨⟨hvalid, Bool.eq_false_iff.mpr hfree⟩, h⟩
      · intro h
        obtain ⟨⟨hvalid, hfree⟩, hrest⟩ := h
        refine ⟨e.window, Window.ofBounds_of_valid hvalid, ?_⟩
        rw [hfree]
        exact hrest

/-- Entries with valid windows are not free of a window because one of them overlaps it. -/
theorem checkFree_eq_error {window : Window} {entries : List (Entry α)} {fault : TimelineError}
    (hvalid : ∀ e ∈ entries, e.window.Valid) (h : checkFree window entries = .error fault) :
    ∃ e ∈ entries, e.window.overlaps window = true ∧ fault = .overlapping window e.window := by
  induction entries with
  | nil => cases h
  | cons e rest ih =>
      obtain ⟨he, hrest⟩ := List.forall_mem_cons.mp hvalid
      have hwindow : Window.ofBounds e.since e.stop = .ok e.window := Window.ofBounds_of_valid he
      rw [checkFree, hwindow] at h
      simp only [bind, Except.bind] at h
      split at h
      · next hoverlap =>
        exact ⟨e, List.mem_cons_self, hoverlap, (Except.error.inj h).symm⟩
      · obtain ⟨e', he', hfault⟩ := ih hrest h
        exact ⟨e', List.mem_cons_of_mem _ he', hfault⟩

/-- An addition succeeds if the new window and, once the open one has stopped, those of the
entries are valid and do not overlap. Then the entry is put where it belongs. -/
theorem add_eq_ok_iff {d d' : Draft α} {value : α} {since : Version} {stop : Option Version} :
    (add value since stop).run d = .ok () d' ↔
      (⟨since, stop⟩ : Window).Valid ∧
      (∀ e ∈ closeOpen since d.entries,
        e.window.Valid ∧ e.window.overlaps ⟨since, stop⟩ = false) ∧
      d' = ⟨insertBySince ⟨value, since, stop⟩ (closeOpen since d.entries)⟩ := by
  have hadd : (add value since stop).run d = .ok () d' ↔
      ∃ window, Window.ofBounds since stop = .ok window ∧
        ∃ passed, checkFree window (closeOpen since d.entries) = .ok passed ∧
          .ok () ⟨insertBySince ⟨value, since, stop⟩ (closeOpen since d.entries)⟩ =
            (.ok () d' : EStateM.Result TimelineError (Draft α) Unit) := by
    rw [add, EStateM.ofExcept_bind_eq_ok_iff]
    refine exists_congr fun window => and_congr_right' ?_
    exact EStateM.ofExcept_bind_eq_ok_iff
  rw [hadd]
  constructor
  · intro h
    obtain ⟨window, hwindow, passed, hfree, h⟩ := h
    have hvalid := Window.valid_of_ofBounds hwindow
    obtain rfl := Window.ofBounds_eq_ok hwindow
    cases h
    exact ⟨hvalid, checkFree_eq_ok_iff.mp hfree, rfl⟩
  · intro h
    obtain ⟨hvalid, hfree, rfl⟩ := h
    exact ⟨_, Window.ofBounds_of_valid hvalid, (), checkFree_eq_ok_iff.mpr hfree, rfl⟩

/-- An addition that fails has failed at one of its checks, and they come before anything is
changed. -/
theorem add_eq_error {d d' : Draft α} {value : α} {since : Version} {stop : Option Version}
    {fault : TimelineError} (h : (add value since stop).run d = .error fault d') :
    d' = d ∧ (Window.ofBounds since stop = .error fault ∨
      (⟨since, stop⟩ : Window).Valid ∧
        checkFree ⟨since, stop⟩ (closeOpen since d.entries) = .error fault) := by
  rcases EStateM.ofExcept_bind_eq_error_iff.mp h with ⟨hwindow, hleft⟩ | ⟨window, hwindow, h⟩
  · exact ⟨hleft, Or.inl hwindow⟩
  have hvalid := Window.valid_of_ofBounds hwindow
  obtain rfl := Window.ofBounds_eq_ok hwindow
  rcases EStateM.ofExcept_bind_eq_error_iff.mp h with ⟨hfree, hleft⟩ | ⟨passed, -, h⟩
  · exact ⟨hleft, Or.inr ⟨hvalid, hfree⟩⟩
  · -- the two changes cannot fail
    cases h

/-- In a list sorted by start, what is left behind the earlier entries starts no
earlier than the bound. -/
theorem le_since_of_mem_dropWhile {since : Version} {entries : List (Entry α)} {e : Entry α}
    (sorted : entries.Pairwise fun e e' => e.since < e'.since)
    (h : e ∈ entries.dropWhile (·.since < since)) : since ≤ e.since := by
  induction entries with
  | nil => exact absurd h List.not_mem_nil
  | cons e' rest ih =>
      obtain ⟨he', hrest⟩ := List.pairwise_cons.mp sorted
      rw [List.dropWhile_cons] at h
      split at h
      · exact ih hrest h
      · next hlater =>
        have hle : since ≤ e'.since := Nat.le_of_not_lt fun hlt => hlater (decide_eq_true hlt)
        rcases List.mem_cons.mp h with rfl | h
        · exact hle
        · exact Nat.le_trans hle (Nat.le_of_lt (he' e h))

/-- An entry that meets no other goes between those that start before it and those
that start later. -/
theorem successive_insertBySince {new : Entry α} {entries : List (Entry α)}
    (h : Successive (entries.map Entry.window)) (hnew : new.window.Valid)
    (hfree : ∀ e ∈ entries, e.window.overlaps new.window = false) :
    Successive ((insertBySince new entries).map Entry.window) := by
  have happart := List.pairwise_map.mp h.apart
  have hsorted := List.pairwise_map.mp h.sorted
  rw [← List.takeWhile_append_dropWhile (l := entries) (p := (·.since < new.since))] at happart
  obtain ⟨hearly, hlate, hacross⟩ := List.pairwise_append.mp happart
  have hearlier : ∀ e ∈ entries.takeWhile (·.since < new.since), e.window.Before new.window := by
    intro e he
    have hlt : e.since < new.since := by
      simpa using List.mem_takeWhile_imp (p := fun x : Entry α => x.since < new.since) he
    have hmem : e ∈ entries := (List.takeWhile_prefix _).subset he
    exact Window.before_of_not_overlaps hnew (Nat.le_of_lt hlt) (hfree e hmem)
  have hlater : ∀ e ∈ entries.dropWhile (·.since < new.since), new.window.Before e.window := by
    intro e he
    have hmem : e ∈ entries := (List.dropWhile_suffix _).subset he
    refine Window.before_of_not_overlaps (h.valid _ (List.mem_map_of_mem hmem))
      (le_since_of_mem_dropWhile hsorted he) ?_
    rw [Window.overlaps_comm]
    exact hfree e hmem
  refine Window.successive_iff.mpr ⟨fun w hw => ?_, List.pairwise_map.mpr ?_⟩
  · obtain ⟨e, he, rfl⟩ := List.mem_map.mp hw
    rcases List.mem_append.mp he with he | he
    · exact h.valid _ (List.mem_map_of_mem ((List.takeWhile_prefix _).subset he))
    rcases List.mem_cons.mp he with rfl | he
    · exact hnew
    · exact h.valid _ (List.mem_map_of_mem ((List.dropWhile_suffix _).subset he))
  · refine List.pairwise_append.mpr ⟨hearly, List.pairwise_cons.mpr ⟨hlater, hlate⟩, ?_⟩
    intro e he e' he'
    rcases List.mem_cons.mp he' with rfl | he'
    · exact hearlier e he
    · exact hacross e he e' he'

/-- **An addition keeps the entries of a draft one after the other.** -/
theorem successive_add {d d' : Draft α} {value : α} {since : Version} {stop : Option Version}
    (h : Successive d.windows) (hadd : (add value since stop).run d = .ok () d') :
    Successive d'.windows := by
  obtain ⟨hvalid, hfree, rfl⟩ := add_eq_ok_iff.mp hadd
  exact successive_insertBySince (successive_closeOpen h) hvalid fun e he => (hfree e he).2

/-- A window is put behind all others if it comes after them once the open one has been
closed. -/
theorem add_behind_closed {d : Draft α} (value : α) {since : Version} {stop : Option Version}
    (h : Successive ((closeOpen since d.entries).map Entry.window ++ [⟨since, stop⟩])) :
    (add value since stop).run d =
      .ok () ⟨closeOpen since d.entries ++ [⟨value, since, stop⟩]⟩ := by
  obtain ⟨hclosed, hnew⟩ := List.forall_mem_append.mp h.valid
  have hvalid : ∀ e ∈ closeOpen since d.entries, e.window.Valid := fun e he =>
    hclosed _ (List.mem_map_of_mem he)
  have hbefore : ∀ e ∈ closeOpen since d.entries, e.window.Before ⟨since, stop⟩ := fun e he =>
    (List.pairwise_append.mp h.apart).2.2 _ (List.mem_map_of_mem he) _ (List.mem_singleton_self _)
  have hall : ∀ e ∈ closeOpen since d.entries, decide (e.since < since) = true := fun e he =>
    decide_eq_true ((hbefore e he).since_lt (hvalid e he))
  refine add_eq_ok_iff.mpr ⟨hnew _ (List.mem_singleton_self _), fun e he => ⟨hvalid e he, ?_⟩, ?_⟩
  · refine Bool.eq_false_iff.mpr fun hoverlap => ?_
    obtain ⟨stop', hstop', hle⟩ := hbefore e he
    exact Nat.not_lt_of_le hle ((Window.overlaps_iff.mp hoverlap).2 stop' hstop')
  · rw [insertBySince, List.takeWhile_eq_self_iff.mpr hall, List.dropWhile_eq_nil_iff.mpr hall]

/-- A window behind all others is taken as it is, and nothing has to be closed for it. -/
theorem add_behind {d : Draft α} (value : α) {since : Version} {stop : Option Version}
    (h : Successive (d.windows ++ [⟨since, stop⟩])) :
    (add value since stop).run d = .ok () ⟨d.entries ++ [⟨value, since, stop⟩]⟩ := by
  have hclosed : closeOpen since d.entries = d.entries := by
    rw [closeOpen_eq_map (h.sublist (List.sublist_append_left _ _))]
    refine (List.map_congr_left fun e he => if_neg fun hgive => ?_).trans (List.map_id _)
    obtain ⟨stop', hstop', -⟩ := (List.pairwise_append.mp h.apart).2.2 _
      (List.mem_map_of_mem he) _ (List.mem_singleton_self _)
    cases hgive.1.symm.trans hstop'
  rw [add_behind_closed value (by rwa [hclosed]), hclosed]

/-- The draft that is left after trying to add a value. -/
def attempt (d : Draft α) (addition : Entry α) : Draft α :=
  ((add addition.value addition.since addition.stop).run d).left

/-- The draft that is left after a run of additions, some of which may be refused. -/
def ofAdditions (additions : List (Entry α)) : Draft α := additions.foldl attempt empty

theorem successive_attempt {d : Draft α} (h : Successive d.windows) (addition : Entry α) :
    Successive (d.attempt addition).windows := by
  unfold attempt
  cases hadd : (add addition.value addition.since addition.stop).run d with
  | ok _ d' => exact successive_add h hadd
  | error fault d' =>
      obtain ⟨rfl, -⟩ := add_eq_error hadd
      exact h

theorem successive_ofAdditions (additions : List (Entry α)) :
    Successive (ofAdditions additions).windows := by
  unfold ofAdditions
  suffices hrun : ∀ d : Draft α, Successive d.windows →
      Successive (additions.foldl attempt d).windows from
    hrun empty Window.successive_nil
  induction additions with
  | nil => exact fun _ h => h
  | cons addition rest ih => exact fun _ h => ih _ (successive_attempt h addition)

theorem entries_of_build {d : Draft α} {t : Timeline α} (h : d.build = .ok t) :
    t.entries = d.entries := by
  obtain ⟨entries⟩ := d
  cases entries with
  | nil => cases h
  | cons e rest =>
      obtain rfl := Except.ok.inj h
      rfl

end Draft

/-! ### Outer bounds -/

/-- The windows of the entries. -/
def windows (t : Timeline α) : List Window := t.entries.map Entry.window

theorem sinces_setLastStop (stop : Option Version) (entries : List (Entry α)) :
    (setLastStop stop entries).map Entry.since = entries.map Entry.since := by
  induction entries with
  | nil => rfl
  | cons e rest ih =>
      cases rest with
      | nil => rfl
      | cons e' rest => rw [setLastStop, List.map_cons, ih, ← List.map_cons]

/-- The stop of the last entry can be moved to any version behind its start. -/
theorem successive_setLastStop {stop : Option Version} {e : Entry α} {rest : List (Entry α)}
    (h : Successive ((e :: rest).map Entry.window))
    (hlast : (⟨(rest.getLastD e).since, stop⟩ : Window).Valid) :
    Successive ((setLastStop stop (e :: rest)).map Entry.window) := by
  induction rest generalizing e with
  | nil => exact Window.successive_singleton hlast
  | cons e' rest ih =>
      obtain ⟨hvalid, hbefore, htail⟩ := Window.successive_cons.mp h
      rw [List.getLastD_cons] at hlast
      refine Window.successive_cons.mpr ⟨hvalid, fun u hu => ?_, ih htail hlast⟩
      -- being before an entry depends on its start only, and no start has moved
      obtain ⟨e₁, he₁, rfl⟩ := List.mem_map.mp hu
      have hsince : e₁.since ∈ (e' :: rest).map Entry.since := by
        rw [← sinces_setLastStop stop]
        exact List.mem_map_of_mem he₁
      obtain ⟨e₂, he₂, hsame⟩ := List.mem_map.mp hsince
      obtain ⟨stop', hstop', hle⟩ := hbefore _ (List.mem_map_of_mem he₂)
      exact ⟨stop', hstop', Nat.le_trans hle (Nat.le_of_eq (congrArg Version.rank hsame))⟩

/-- Bounds that are accepted leave the entries one after the other. -/
theorem successive_readjust {t t' : Timeline α} {since : Version} {stop : Option Version}
    (ht : Successive t.windows) (h : t.readjust since stop = .ok t') :
    Successive t'.windows := by
  obtain ⟨-, -, rfl⟩ | ⟨window, -, hwindow, rfl⟩ | ⟨head, tail, hhead, htail, hrest, rfl⟩ :=
    readjust_cases h
  · exact ht
  · have hvalid : window.Valid := Window.valid_of_ofBounds hwindow
    exact Window.successive_singleton hvalid
  · obtain ⟨first, rest⟩ := t
    obtain ⟨e, rest, rfl⟩ := List.exists_cons_of_ne_nil hrest
    obtain rfl := Window.ofBounds_eq_ok hhead
    obtain rfl := Window.ofBounds_eq_ok htail
    have hmoved : Successive (({ first with since := since } :: e :: rest).map Entry.window) := by
      obtain ⟨-, hbefore, hlater⟩ := Window.successive_cons.mp ht
      exact Window.successive_cons.mpr ⟨Window.valid_of_ofBounds hhead, hbefore, hlater⟩
    exact successive_setLastStop hmoved (Window.valid_of_ofBounds htail)

/-- What is left of a timeline inside a window is one after the other. -/
theorem successive_restrict {t t' : Timeline α} {window : Window} (ht : Successive t.windows)
    (h : t.restrict window = .ok t') : Successive t'.windows := by
  unfold restrict at h
  cases hkept : t.entries.filter (·.window.overlaps window) with
  | nil =>
      rw [hkept] at h
      cases h
  | cons first rest =>
      rw [hkept] at h
      refine successive_readjust (t := ⟨first, rest⟩) ?_ h
      rw [windows, entries, ← hkept]
      exact ht.sublist (List.filter_sublist.map _)

/-! ### Transformed values -/

theorem windows_mapEntries (f : α → Window → β) (t : Timeline α) :
    (t.mapEntries f).windows = t.windows := by
  simp [windows, entries, mapEntries, Entry.withValue, Entry.window, Function.comp_def]

theorem windows_mapEntriesM {f : α → Window → Except ε β} {t : Timeline α} {t' : Timeline β}
    (h : t.mapEntriesM f = .ok t') : t'.windows = t.windows := by
  obtain ⟨first, -, h⟩ := Except.bind_eq_ok_iff.mp h
  obtain ⟨rest, hrest, h⟩ := Except.bind_eq_ok_iff.mp h
  obtain rfl := Except.pure_eq_ok_iff.mp h
  have hkept : List.Forall₂ (fun e e' => e.window = e'.window) t.rest rest := by
    refine (List.mapM_eq_ok_iff.mp hrest).imp fun e e' hstep => ?_
    obtain ⟨value, -, hentry⟩ := Except.bind_eq_ok_iff.mp hstep
    obtain rfl := Except.pure_eq_ok_iff.mp hentry
    rfl
  rw [windows, entries, List.map_cons, ← List.map_eq_map_of_forall₂ hkept]
  rfl

/-! ### Timelines that can be made -/

/-- A timeline that the operations lead to. -/
inductive Made : {α : Type} → Timeline α → Prop
  /-- The finished draft of a run of additions. -/
  | build {α : Type} {additions : List (Entry α)} {t : Timeline α}
      (h : (Draft.ofAdditions additions).build = .ok t) : Made t
  | constant {α : Type} (value : α) : Made (constant value)
  | single {α : Type} (value : α) {window : Window} (valid : window.Valid) :
      Made (single value window)
  | readjust {α : Type} {t t' : Timeline α} {since : Version} {stop : Option Version}
      (made : Made t) (h : t.readjust since stop = .ok t') : Made t'
  | restrict {α : Type} {t t' : Timeline α} {window : Window} (made : Made t)
      (h : t.restrict window = .ok t') : Made t'
  | map {α β : Type} {t : Timeline α} (made : Made t) (f : α → β) : Made (t.map f)
  | mapEntries {α β : Type} {t : Timeline α} (made : Made t) (f : α → Window → β) :
      Made (t.mapEntries f)
  | mapEntriesM {α β ε : Type} {t : Timeline α} {t' : Timeline β}
      {f : α → Window → Except ε β} (made : Made t) (h : t.mapEntriesM f = .ok t') : Made t'

theorem Made.successive {t : Timeline α} (h : t.Made) : Successive t.windows := by
  induction h with
  | build h =>
      rw [windows, Draft.entries_of_build h]
      exact Draft.successive_ofAdditions _
  | constant value => exact Window.successive_singleton fun _ hstop => by cases hstop
  | single value valid => exact Window.successive_singleton valid
  | readjust _ h ih => exact successive_readjust ih h
  | restrict _ h ih => exact successive_restrict ih h
  | map _ f ih => exact windows_mapEntries (fun value _ => f value) _ ▸ ih
  | mapEntries _ f ih => exact windows_mapEntries f _ ▸ ih
  | mapEntriesM _ h ih => exact windows_mapEntriesM h ▸ ih

/-- When entries lie one after the other, an entry answers for its versions. -/
theorem at?_eq_some_iff {t : Timeline α} (h : Successive t.windows) {v : Version} {x : α} :
    t.at? v = some x ↔ ∃ e ∈ t.entries, e.window.contains v = true ∧ e.value = x :=
  Entry.map_find?_eq_some_iff h

/-! ### The first and the last entry -/

/-- A timeline starts with the value of its first entry. -/
theorem at?_first {t : Timeline α} (h : Successive t.windows) :
    t.at? t.first.since = some t.first.value := by
  have hvalid : t.first.window.Valid := h.valid _ (List.mem_map_of_mem List.mem_cons_self)
  exact (at?_eq_some_iff h).mpr ⟨t.first, List.mem_cons_self, hvalid.contains_since, rfl⟩

theorem getLast?_entries (t : Timeline α) : t.entries.getLast? = some t.last := by
  rw [entries, last, List.getLast?_cons, List.getLastD_eq_getLast?]

theorem last_mem_entries (t : Timeline α) : t.last ∈ t.entries :=
  List.mem_of_getLast? t.getLast?_entries

/-- No entry starts before the first one. -/
theorem first_since_le {t : Timeline α} (h : Successive t.windows) {e : Entry α}
    (he : e ∈ t.entries) : t.first.since ≤ e.since := by
  have hsorted := (List.pairwise_cons.mp (List.pairwise_map.mp h.sorted)).1
  rcases List.mem_cons.mp he with rfl | he
  · exact Nat.le_refl _
  · exact Nat.le_of_lt (hsorted e he)

/-- Every other entry has stopped when the last one starts. -/
theorem eq_last_or_before {t : Timeline α} (h : Successive t.windows) {e : Entry α}
    (he : e ∈ t.entries) : e = t.last ∨ e.window.Before t.last.window := by
  have happart := List.pairwise_map.mp h.apart
  rw [← List.dropLast_append_getLast? _ t.getLast?_entries] at he happart
  rcases List.mem_append.mp he with he | he
  · exact Or.inr ((List.pairwise_append.mp happart).2.2 e he _ (List.mem_singleton_self _))
  · exact Or.inl (List.mem_singleton.mp he)

/-- No entry starts behind the last one. -/
theorem since_le_last {t : Timeline α} (h : Successive t.windows) {e : Entry α}
    (he : e ∈ t.entries) : e.since ≤ t.last.since := by
  rcases eq_last_or_before h he with rfl | hbefore
  · exact Nat.le_refl _
  · exact Nat.le_of_lt (hbefore.since_lt (h.valid _ (List.mem_map_of_mem he)))

theorem span_valid {t : Timeline α} (h : Successive t.windows) : t.span.Valid := by
  intro stop hstop
  have hlast : t.last.since < stop :=
    h.valid _ (List.mem_map_of_mem t.last_mem_entries) stop hstop
  exact Nat.lt_of_le_of_lt (first_since_le h t.last_mem_entries) hlast

/-- The span holds every version of every entry. -/
theorem contains_span {t : Timeline α} (h : Successive t.windows) {e : Entry α}
    (he : e ∈ t.entries) {v : Version} (hv : e.window.contains v = true) :
    t.span.contains v = true := by
  obtain ⟨hsince, hstop⟩ := Window.contains_iff.mp hv
  refine Window.contains_iff.mpr
    ⟨Nat.le_trans (first_since_le h he) hsince, fun stop hspan => ?_⟩
  rcases eq_last_or_before h he with rfl | ⟨stop', hstop', hle⟩
  · exact hstop stop hspan
  · have hlast : t.last.since < stop :=
      h.valid _ (List.mem_map_of_mem t.last_mem_entries) stop hspan
    exact Nat.lt_of_lt_of_le (hstop stop' hstop') (Nat.le_trans hle (Nat.le_of_lt hlast))

/-- **No operation gives a version two values.** The entries of a draft after any run of
additions, and those of a timeline after any run of operations, are listed by their
starts, are valid, have stopped when the next one starts, and so only the last of them
may be open-ended. Hence a version has one entry at most. A timeline is never empty, and
its span is a valid window around all of its entries. -/
theorem made_one_after_the_other :
    (∀ (α : Type) (additions : List (Entry α)),
      Successive (Draft.ofAdditions additions).windows ∧
      ∀ v, ((Draft.ofAdditions additions).entries.filter (·.window.contains v)).length ≤ 1) ∧
    ∀ (α : Type) (t : Timeline α), t.Made →
      Successive t.windows ∧
      (∀ v, (t.entries.filter (·.window.contains v)).length ≤ 1) ∧
      (t.entries.head? = some t.first ∧ t.entries.getLast? = some t.last) ∧
      t.first.window.Valid ∧ t.last.window.Valid ∧ t.span.Valid ∧
      ∀ e ∈ t.entries, ∀ v, e.window.contains v = true → t.span.contains v = true := by
  constructor
  · intro α additions
    have h := Draft.successive_ofAdditions additions
    exact ⟨h, Entry.length_filter_contains_le h⟩
  · intro α t ht
    have h := ht.successive
    have hvalid : ∀ e ∈ t.entries, e.window.Valid :=
      fun e he => h.valid _ (List.mem_map_of_mem he)
    exact ⟨h, Entry.length_filter_contains_le h, ⟨rfl, t.getLast?_entries⟩,
      hvalid _ List.mem_cons_self, hvalid _ t.last_mem_entries, span_valid h,
      fun e he v hv => contains_span h he hv⟩

/-- A value that is revised twice, and an addition that comes too late. -/
def revisions : List (Entry Nat) :=
  [⟨0, .classic, none⟩, ⟨1, .dated20190516, none⟩,
   ⟨2, .dated20190322, some .dated20191219⟩, ⟨3, .dated20210406, none⟩]

/-- The late addition is refused, and a window cuts what is left at both ends. -/
theorem made_one_after_the_other_revisions :
    ∃ whole part : Timeline Nat, (Draft.ofAdditions revisions).build = .ok whole ∧
      whole.restrict ⟨.dated20190521, some .dated20220309⟩ = .ok part ∧
      part.map (· + 1) = ⟨⟨2, .dated20190521, some .dated20210406⟩,
        [⟨4, .dated20210406, some .dated20220309⟩]⟩ ∧
      Successive (part.map (· + 1)).windows ∧ (part.map (· + 1)).span.Valid := by
  let whole : Timeline Nat :=
    ⟨⟨0, .classic, some .dated20190516⟩,
      [⟨1, .dated20190516, some .dated20210406⟩, ⟨3, .dated20210406, none⟩]⟩
  let part : Timeline Nat :=
    ⟨⟨1, .dated20190521, some .dated20210406⟩, [⟨3, .dated20210406, some .dated20220309⟩]⟩
  have hwhole : (Draft.ofAdditions revisions).build = .ok whole := by rfl
  have hpart : whole.restrict ⟨.dated20190521, some .dated20220309⟩ = .ok part := by rfl
  have hmade := made_one_after_the_other.2 Nat _ (.map (.restrict (.build hwhole) hpart) (· + 1))
  exact ⟨whole, part, hwhole, hpart, rfl, hmade.1, hmade.2.2.2.2.2.1⟩

end Timeline

end ApiChronicle
