import ApiChronicle.Proofs.TimelineOrder

/-! # ApiChronicle.Proofs.Restriction

**What a window makes of a timeline**, seen from one version.

Restricting a timeline keeps the entries that overlap the window and moves the outer
bounds to those of the window. Moving a bound can cut the entry at that end and it can
stretch it: the first entry answers for every version of the window before it, and the
last one for every version behind it. Gaps between entries stay gaps.

When the outer bounds of a timeline move, each of its entries moves on its own
(`entries_of_readjust_eq_map`): the starts differ, so that an entry is the first or the
last one if it starts where that one does. `contains_moved_iff` then says what an entry
holds afterwards, in terms of what it held before. The outer bounds may move to any valid
window that the first and the last entry overlap, and the entries that a restriction
keeps all do: no restriction fails because of its bounds (`exists_readjust`).
-/

namespace ApiChronicle.Timeline

open Window (Successive)

variable {α : Type} {t t' : Timeline α} {bounds : Window} {e : Entry α} {v : Version}

/-! ### Moved entries -/

/-- An entry of a timeline when the outer bounds have moved: the start of the first entry
and the stop of the last one are those of the bounds. -/
def moved (t : Timeline α) (bounds : Window) (e : Entry α) : Entry α :=
  { e with
    since := if e.since = t.first.since then bounds.since else e.since
    stop := if e.since = t.last.since then bounds.stop else e.stop }

theorem setLastStop_eq_map {stop : Option Version} {e : Entry α} {rest : List (Entry α)}
    (sorted : (e :: rest).Pairwise fun e e' => e.since < e'.since) :
    setLastStop stop (e :: rest) = (e :: rest).map fun x =>
      { x with stop := if x.since = (rest.getLastD e).since then stop else x.stop } := by
  induction rest generalizing e with
  | nil => simp [setLastStop]
  | cons e' rest ih =>
      obtain ⟨hbefore, htail⟩ := List.pairwise_cons.mp sorted
      have hne : e.since ≠ (rest.getLastD e').since := fun heq =>
        Nat.lt_irrefl _ (heq ▸ hbefore _ List.getLastD_mem_cons)
      rw [setLastStop, ih htail, List.getLastD_cons]
      conv_rhs => rw [List.map_cons, if_neg hne]

/-- Moving the outer bounds of a timeline moves each of its entries on its own. -/
theorem entries_of_readjust_eq_map (ht : Successive t.windows)
    (h : t.readjust bounds.since bounds.stop = .ok t') :
    t'.entries = t.entries.map (t.moved bounds) := by
  obtain ⟨first, rest⟩ := t
  rw [entries_of_readjust h]
  cases rest with
  | nil => simp [setLastStop, entries, moved, last]
  | cons e rest =>
      obtain ⟨hbefore, hsorted⟩ := List.pairwise_cons.mp (List.pairwise_map.mp ht.sorted)
      have hfirst : ∀ x ∈ e :: rest, first.since ≠ x.since := fun x hx heq =>
        Nat.ne_of_lt (hbefore x hx) (congrArg Version.rank heq)
      have hlast : (⟨first, e :: rest⟩ : Timeline α).last = rest.getLastD e := List.getLastD_cons ..
      rw [setLastStop, setLastStop_eq_map hsorted]
      refine congrArg₂ List.cons ?_ (List.map_congr_left fun x hx => ?_)
      · rw [moved, hlast, if_pos rfl, if_neg (hfirst _ List.getLastD_mem_cons)]
      · rw [moved, hlast, if_neg (hfirst x hx).symm]

/-- What an entry holds inside of the bounds when it has moved: what it held before, and
the versions in front of it if it is the first one, and those behind it if it is the
last. -/
theorem contains_moved_iff (he : e.window.Valid) (hv : bounds.contains v = true) :
    (t.moved bounds e).window.contains v = true ↔
      e.window.contains v = true ∨ (e.since = t.first.since ∧ v < e.since) ∨
        (e.since = t.last.since ∧ ∃ stop ∈ e.stop, stop ≤ v) := by
  obtain ⟨hsince, hstop⟩ := Window.contains_iff.mp hv
  have hmoved : (t.moved bounds e).window.contains v = true ↔
      (e.since = t.first.since ∨ e.since ≤ v) ∧
        (e.since = t.last.since ∨ ∀ stop ∈ e.stop, v < stop) := by
    rw [Window.contains_iff]
    refine and_congr ?_ ?_
    · by_cases hfirst : e.since = t.first.since <;> simp [moved, Entry.window, hfirst, hsince]
    · by_cases hlast : e.since = t.last.since
      · simpa [moved, Entry.window, hlast] using hstop
      · simp [moved, Entry.window, hlast]
  have hheld : e.window.contains v = true ↔ e.since ≤ v ∧ ∀ stop ∈ e.stop, v < stop :=
    Window.contains_iff
  have hfront : v < e.since ↔ ¬e.since ≤ v := Nat.not_le.symm
  have hbehind : (∃ stop ∈ e.stop, stop ≤ v) ↔ ¬∀ stop ∈ e.stop, v < stop := by
    simp only [not_forall, exists_prop, Nat.not_lt, Version.lt_iff_rank, Version.le_iff_rank]
  rw [hmoved, hheld, hfront, hbehind]
  -- a version in front of an entry is not behind it
  have hrunning : ¬e.since ≤ v → ∀ stop ∈ e.stop, v < stop := fun hstarted stop hmem =>
    Nat.lt_trans (Nat.lt_of_not_le hstarted) (he stop hmem)
  generalize (∀ stop ∈ e.stop, v < stop) = running at hrunning ⊢
  by_cases hstarted : e.since ≤ v
  · by_cases hstill : running <;> simp [hstarted, hstill]
  · simp [hstarted, hrunning hstarted]

/-! ### Moved outer bounds -/

section Readjust

variable (ht : Successive t.windows) (h : t.readjust bounds.since bounds.stop = .ok t')
include ht h

/-- The span of a timeline whose outer bounds have moved is those bounds. -/
theorem span_readjust : t'.span = bounds := by
  have hentries := entries_of_readjust_eq_map ht h
  have hfirst : t'.first = t.moved bounds t.first := (List.cons.inj hentries).1
  have hlast : t'.last = t.moved bounds t.last := by
    have hlast := congrArg List.getLast? hentries
    rw [List.getLast?_map, getLast?_entries, getLast?_entries] at hlast
    exact Option.some.inj hlast
  simp [span, hfirst, hlast, moved]

theorem values_readjust : t'.entries.map Entry.value = t.entries.map Entry.value := by
  rw [entries_of_readjust_eq_map ht h, List.map_map]
  rfl

/-- Inside of the new bounds, a version has the value of the entry that held it before, of
the first entry if it is in front of that one, or of the last entry if it is behind it. -/
theorem at?_readjust_eq_some_iff (hv : bounds.contains v = true) {x : α} :
    t'.at? v = some x ↔ ∃ e ∈ t.entries, (e.window.contains v = true ∨
      (e.since = t.first.since ∧ v < e.since) ∨
      (e.since = t.last.since ∧ ∃ stop ∈ e.stop, stop ≤ v)) ∧ e.value = x := by
  rw [at?_eq_some_iff (successive_readjust ht h), entries_of_readjust_eq_map ht h]
  simp only [List.mem_map, exists_exists_and_eq_and]
  refine exists_congr fun e => and_congr_right fun he => and_congr_left' ?_
  exact contains_moved_iff (ht.valid _ (List.mem_map_of_mem he)) hv

theorem at?_readjust_outside (hv : bounds.contains v = false) : t'.at? v = none := by
  have ht' := successive_readjust ht h
  refine Option.eq_none_iff_forall_ne_some.mpr fun x hx => ?_
  obtain ⟨e, he, hcontains, -⟩ := (at?_eq_some_iff ht').mp hx
  have hspan := contains_span ht' he hcontains
  rw [span_readjust ht h, hv] at hspan
  cases hspan

theorem at?_readjust_of_contains (hv : bounds.contains v = true) (he : e ∈ t.entries)
    (hcontains : e.window.contains v = true) : t'.at? v = some e.value :=
  (at?_readjust_eq_some_iff ht h hv).mpr ⟨e, he, Or.inl hcontains, rfl⟩

theorem at?_readjust_in_front (hv : bounds.contains v = true) (hlt : v < t.first.since) :
    t'.at? v = some t.first.value :=
  (at?_readjust_eq_some_iff ht h hv).mpr
    ⟨t.first, List.mem_cons_self, Or.inr (Or.inl ⟨rfl, hlt⟩), rfl⟩

theorem at?_readjust_behind (hv : bounds.contains v = true)
    (hstop : ∃ stop ∈ t.last.stop, stop ≤ v) : t'.at? v = some t.last.value :=
  (at?_readjust_eq_some_iff ht h hv).mpr
    ⟨t.last, t.last_mem_entries, Or.inr (Or.inr ⟨rfl, hstop⟩), rfl⟩

/-- A version between two entries stays without a value. -/
theorem at?_readjust_in_gap (hv : bounds.contains v = true)
    (hgap : ∀ e ∈ t.entries, e.window.contains v = false)
    (hearly : ∃ e ∈ t.entries, e.since ≤ v) (hlate : ∃ e ∈ t.entries, v < e.since) :
    t'.at? v = none := by
  refine Option.eq_none_iff_forall_ne_some.mpr fun x hx => ?_
  obtain ⟨e, he, hcontains | ⟨hfirst, hlt⟩ | ⟨hlast, stop, hstop, hle⟩, -⟩ :=
    (at?_readjust_eq_some_iff ht h hv).mp hx
  · exact Bool.false_ne_true ((hgap e he).symm.trans hcontains)
  · obtain ⟨e', he', hle⟩ := hearly
    rw [hfirst] at hlt
    exact Nat.not_lt_of_le (Nat.le_trans (first_since_le ht he') hle) hlt
  · -- nothing starts after the last entry, which has stopped by now
    obtain ⟨e', he', hlt⟩ := hlate
    have hvalid : e.since < stop := ht.valid _ (List.mem_map_of_mem he) stop hstop
    have hlate : e'.since ≤ e.since := hlast ▸ since_le_last ht he'
    exact Nat.not_lt_of_le (Nat.le_trans hlate (Nat.le_trans (Nat.le_of_lt hvalid) hle)) hlt

end Readjust

theorem readjust_span (t : Timeline α) : t.readjust t.span.since t.span.stop = .ok t :=
  if_pos ⟨rfl, rfl⟩

/-- The outer bounds may move to a valid window, unless that would turn the first entry or
the last one around. -/
theorem exists_readjust (hbounds : bounds.Valid)
    (hfirst : (⟨bounds.since, t.first.stop⟩ : Window).Valid)
    (hlast : (⟨t.last.since, bounds.stop⟩ : Window).Valid) :
    ∃ t', t.readjust bounds.since bounds.stop = .ok t' := by
  obtain ⟨first, rest⟩ := t
  unfold readjust
  split
  · exact ⟨_, rfl⟩
  cases rest with
  | nil =>
      rw [Window.ofBounds_of_valid hbounds]
      exact ⟨_, rfl⟩
  | cons e rest =>
      have hhead := Window.ofBounds_of_valid hfirst
      have htail := Window.ofBounds_of_valid hlast
      simp only at hhead htail
      simp only [hhead, htail]
      exact ⟨_, rfl⟩

/-! ### Restrictions -/

variable {window : Window}

theorem successive_kept (ht : Successive t.windows) {kept : Timeline α}
    (h : t.entries.filter (·.window.overlaps window) = kept.entries) :
    Successive kept.windows := by
  rw [windows, ← h]
  exact ht.sublist (List.filter_sublist.map _)

theorem mem_kept_iff {kept : Timeline α}
    (h : t.entries.filter (·.window.overlaps window) = kept.entries) :
    e ∈ kept.entries ↔ e ∈ t.entries ∧ e.window.overlaps window = true := by
  rw [← h, List.mem_filter]

/-- Entries that overlap a window do not get in the way of its bounds. -/
theorem exists_restrict (hw : window.Valid) {kept : Timeline α}
    (h : t.entries.filter (·.window.overlaps window) = kept.entries) :
    ∃ t', t.restrict window = .ok t' := by
  have hoverlaps : ∀ e ∈ kept.entries, e.window.overlaps window = true := fun e he =>
    ((mem_kept_iff h).mp he).2
  rw [restrict_of_kept h]
  refine exists_readjust hw ?_ ?_
  · exact (Window.overlaps_iff.mp (hoverlaps _ List.mem_cons_self)).2
  · exact (Window.overlaps_iff.mp (hoverlaps _ kept.last_mem_entries)).1

theorem at?_restrict_outside (ht : Successive t.windows) (h : t.restrict window = .ok t')
    (hv : window.contains v = false) : t'.at? v = none := by
  obtain ⟨kept, hkept, hmoved⟩ := exists_kept h
  exact at?_readjust_outside (successive_kept ht hkept) hmoved hv

/-- What has been restricted to a window fills it. -/
theorem span_restrict (ht : Successive t.windows) (h : t.restrict window = .ok t') :
    t'.span = window := by
  obtain ⟨kept, hkept, hmoved⟩ := exists_kept h
  exact span_readjust (successive_kept ht hkept) hmoved

/-- So a second restriction to the window changes nothing. -/
theorem restrict_restrict (ht : Successive t.windows) (h : t.restrict window = .ok t') :
    t'.restrict window = .ok t' := by
  have ht' := successive_restrict ht h
  have hspan : t'.span = window := span_restrict ht h
  have hall : t'.entries.filter (·.window.overlaps window) = t'.entries := by
    refine List.filter_eq_self.mpr fun e he => ?_
    have hvalid := ht'.valid _ (List.mem_map_of_mem he)
    have hstart : e.window.contains e.since = true := Window.Valid.contains_since hvalid
    rw [← hspan]
    exact (Window.overlaps_iff_meets hvalid (span_valid ht')).mpr
      ⟨e.since, hstart, contains_span ht' he hstart⟩
  rw [restrict_of_kept hall, ← hspan]
  exact t'.readjust_span

/-- **A window cuts a timeline and stretches it.** Restricting a timeline to a window fails
exactly if no entry meets the window, and then because nothing is left. Otherwise the
values of the entries that meet it are kept in their order, the result spans the window, and
a version has no value outside of it. Inside of it, a version has the value of the kept
entry that holds it, the first kept value in front of all kept entries, the last one behind
all of them, and no value between two of them. Restricting to the same window once more
changes nothing. -/
theorem restrict_pointwise (made : t.Made) (hw : window.Valid) :
    let kept := t.entries.filter (·.window.Meets window)
    ((∃ fault, t.restrict window = .error fault) ↔ ∀ e ∈ t.entries, ¬e.window.Meets window) ∧
    (∀ fault, t.restrict window = .error fault → fault = .empty) ∧
    ∀ t', t.restrict window = .ok t' →
      t'.entries.map Entry.value = kept.map Entry.value ∧ t'.span = window ∧
      (∀ v, window.contains v = false → t'.at? v = none) ∧
      (∀ v, window.contains v = true →
        (∀ e ∈ kept, e.window.contains v = true → t'.at? v = some e.value) ∧
        ((∀ e ∈ kept, v < e.since) → t'.at? v = kept.head?.map Entry.value) ∧
        ((∀ e ∈ kept, ∃ stop ∈ e.stop, stop ≤ v) →
          t'.at? v = kept.getLast?.map Entry.value) ∧
        ((∀ e ∈ kept, e.window.contains v = false) → (∃ e ∈ kept, e.since ≤ v) →
          (∃ e ∈ kept, v < e.since) → t'.at? v = none)) ∧
      t'.restrict window = .ok t' := by
  intro kept
  have ht := made.successive
  have hnone : kept = [] ↔ ∀ e ∈ t.entries, ¬e.window.Meets window := by
    simp only [kept, List.filter_eq_nil_iff, decide_eq_true_iff]
  have hoverlap : t.entries.filter (·.window.overlaps window) = kept :=
    List.filter_congr fun e he => by
      rw [Bool.eq_iff_iff, decide_eq_true_iff]
      exact Window.overlaps_iff_meets (ht.valid _ (List.mem_map_of_mem he)) hw
  cases hkept : kept with
  | nil =>
      have hempty : t.restrict window = .error .empty := restrict_of_none (hoverlap.trans hkept)
      refine ⟨iff_of_true ⟨_, hempty⟩ (hnone.mp hkept), fun fault h => ?_, fun t' h => ?_⟩
      · exact (Except.error.inj (hempty.symm.trans h)).symm
      · cases hempty.symm.trans h
  | cons first rest =>
      let k : Timeline α := ⟨first, rest⟩
      have hentries : t.entries.filter (·.window.overlaps window) = k.entries :=
        hoverlap.trans hkept
      have hk : Successive k.windows := successive_kept ht hentries
      obtain ⟨t₁, hok⟩ := exists_restrict hw hentries
      have hfails : ∀ fault, t.restrict window ≠ .error fault := fun fault h => by
        cases hok.symm.trans h
      refine ⟨iff_of_false (fun h => h.elim hfails) fun h => ?_, fun fault h => absurd h (hfails _),
        fun t' h => ?_⟩
      · cases hkept.symm.trans (hnone.mpr h)
      have hmoved : k.readjust window.since window.stop = .ok t' :=
        (restrict_of_kept hentries).symm.trans h
      refine ⟨values_readjust hk hmoved, span_readjust hk hmoved,
        fun v hv => at?_restrict_outside ht h hv, fun v hv => ⟨fun e he hcontains => ?_,
          fun hfront => ?_, fun hbehind => ?_, fun hgap hearly hlate => ?_⟩,
        restrict_restrict ht h⟩
      · exact at?_readjust_of_contains hk hmoved hv he hcontains
      · exact at?_readjust_in_front hk hmoved hv (hfront _ List.mem_cons_self)
      · rw [← hkept, ← hoverlap, hentries, k.getLast?_entries]
        exact at?_readjust_behind hk hmoved hv (hbehind _ k.last_mem_entries)
      · exact at?_readjust_in_gap hk hmoved hv hgap hearly hlate

/-- Three values for some versions each, with gaps between them. -/
def episodes : Timeline Nat :=
  ⟨⟨1, .dated20190221, some .dated20190322⟩,
    [⟨2, .dated20191219, some .dated20201117⟩, ⟨3, .dated20210406, some .dated20210715⟩]⟩

/-- Two of the episodes meet the time until the third one. They are stretched to its ends, with
the gap between them. No episode meets the end of time. -/
theorem restrict_pointwise_episodes :
    (∃ part, episodes.restrict ⟨.classic, some .dated20210406⟩ = .ok part ∧
      part.at? .classic = some 1 ∧ part.at? .dated20190516 = none ∧
      part.at? .dated20201117 = some 2 ∧ part.at? .dated20210406 = none ∧
      part.restrict ⟨.classic, some .dated20210406⟩ = .ok part) ∧
    episodes.restrict ⟨.dated20220309, none⟩ = .error .empty := by
  have hbuild : (Draft.ofAdditions episodes.entries).build = .ok episodes := rfl
  have made : episodes.Made := .build hbuild
  constructor
  · obtain ⟨-, -, hpart⟩ := restrict_pointwise made
      (show (⟨.classic, some .dated20210406⟩ : Window).Valid by decide)
    obtain ⟨-, -, houtside, hinside, hagain⟩ := hpart _ rfl
    obtain ⟨-, hfront, -, -⟩ := hinside .classic (by decide)
    obtain ⟨-, -, -, hgap⟩ := hinside .dated20190516 (by decide)
    obtain ⟨-, -, hbehind, -⟩ := hinside .dated20201117 (by decide)
    exact ⟨_, rfl, hfront (by decide), hgap (by decide) (by decide) (by decide),
      hbehind (by decide), houtside _ (by decide), hagain⟩
  · obtain ⟨hfails, hempty, -⟩ := restrict_pointwise made
      (show (⟨.dated20220309, none⟩ : Window).Valid by decide)
    obtain ⟨fault, hfault⟩ := hfails.mpr (by decide)
    rw [hfault, hempty fault hfault]

end ApiChronicle.Timeline
