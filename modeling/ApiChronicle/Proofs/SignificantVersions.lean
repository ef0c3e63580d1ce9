import ApiChronicle.Proofs.TimelineOrder
import Mathlib.Data.List.Perm.Basic

/-! # ApiChronicle.Proofs.SignificantVersions

**Where a timeline changes**, and why it is enough to look there.

The significant versions of a timeline are collected from both ends of every entry, and those
without a value are dropped. When entries lie one after the other, a stop that has a value is the
start of another entry (`exists_start_of_stop`), so the starts are left and nothing else
(`significantVersions_eq_starts`). An entry that holds a version has started at the last
significant version up to it, because every entry that starts in between would begin where the
first one has stopped (`since_le_of_contains`). Two timelines that change at the same versions
and agree there agree wherever both have a value.
-/

namespace ApiChronicle

open Window (Successive)

/-! ### Entries one after the other -/

namespace Entry

variable {α : Type} {entries : List (Entry α)} {e e' : Entry α} {v : Version}

/-- No entry starts later than the one that holds a version, and yet by that version. -/
theorem since_le_of_contains (h : Successive (entries.map window)) (he : e ∈ entries)
    (hv : e.window.contains v = true) (he' : e' ∈ entries) (hle : e'.since ≤ v) :
    e'.since ≤ e.since := by
  rcases h.eq_or_before he he' with rfl | ⟨stop, hstop, hlater⟩ | hearlier
  · exact Nat.le_refl _
  · have hlt : v < stop := (Window.contains_iff.mp hv).2 stop hstop
    exact absurd (Nat.le_trans hlater hle) (Nat.not_le_of_lt hlt)
  · exact Nat.le_of_lt (hearlier.since_lt (h.valid _ (List.mem_map_of_mem he')))

/-- An entry holds the stop of another one only if it starts there. -/
theorem since_eq_of_contains_stop (h : Successive (entries.map window)) (he : e ∈ entries)
    {stop : Version} (hstop : e.stop = some stop) (he' : e' ∈ entries)
    (hv : e'.window.contains stop = true) : e'.since = stop := by
  have hlt : e.since < stop := h.valid _ (List.mem_map_of_mem he) stop hstop
  obtain ⟨hsince, hend⟩ := Window.contains_iff.mp hv
  have hle : e.since ≤ e'.since := since_le_of_contains h he' hv he (Nat.le_of_lt hlt)
  rcases h.eq_or_before he he' with rfl | ⟨stop', hstop', hlater⟩ | hearlier
  · exact absurd (hend stop hstop) (Nat.lt_irrefl _)
  · obtain rfl := Option.some.inj (hstop.symm.trans hstop')
    exact Version.rank_inj.mp (Nat.le_antisymm hsince hlater)
  · have hlt' := hearlier.since_lt (h.valid _ (List.mem_map_of_mem he'))
    exact absurd hle (Nat.not_le_of_lt hlt')

end Entry

/-! ### Significant versions -/

namespace Timeline

variable {α : Type} {t t' : Timeline α} {e : Entry α} {v w : Version}

/-- The last significant version up to a version. -/
def LastSignificant (t : Timeline α) (v w : Version) : Prop :=
  w ∈ t.significantVersions ∧ w ≤ v ∧ ∀ u ∈ t.significantVersions, u ≤ v → u ≤ w

theorem entryAt?_eq_some_iff (h : Successive t.windows) :
    t.entryAt? v = some e ↔ e ∈ t.entries ∧ e.window.contains v = true :=
  Entry.find?_eq_some_iff h

/-- An entry is found at its start. -/
theorem entryAt?_since (h : Successive t.windows) (he : e ∈ t.entries) :
    t.entryAt? e.since = some e := by
  have hvalid : e.window.Valid := h.valid _ (List.mem_map_of_mem he)
  exact (entryAt?_eq_some_iff h).mpr ⟨he, hvalid.contains_since⟩

theorem mem_significantVersions_iff :
    v ∈ t.significantVersions ↔
      (t.entryAt? v).isSome = true ∧ ∃ e ∈ t.entries, e.since = v ∨ e.stop = some v := by
  simp [significantVersions, versions, Version.mem_all, and_comm]

theorem sorted_significantVersions (t : Timeline α) :
    t.significantVersions.Pairwise (· < ·) :=
  (Version.all_sorted.filter _).filter _

/-- A stop that has a value is the start of another entry. -/
theorem exists_start_of_stop (h : Successive t.windows) (he : e ∈ t.entries)
    (hstop : e.stop = some v) (hv : (t.entryAt? v).isSome = true) :
    ∃ e' ∈ t.entries, e' ≠ e ∧ e'.since = v := by
  obtain ⟨e', hfound⟩ := Option.isSome_iff_exists.mp hv
  obtain ⟨he', hcontains⟩ := (entryAt?_eq_some_iff h).mp hfound
  have hstart := Entry.since_eq_of_contains_stop h he hstop he' hcontains
  refine ⟨e', he', ?_, hstart⟩
  rintro rfl
  have hlt : e'.since < v := h.valid _ (List.mem_map_of_mem he') v hstop
  exact Nat.lt_irrefl _ (hstart ▸ hlt)

/-- A version is significant if an entry starts there. -/
theorem significant_iff_start (h : Successive t.windows) :
    v ∈ t.significantVersions ↔ v ∈ t.entries.map Entry.since := by
  rw [mem_significantVersions_iff, List.mem_map]
  constructor
  · intro hsignificant
    obtain ⟨hsome, e, he, hstart | hstop⟩ := hsignificant
    · exact ⟨e, he, hstart⟩
    · obtain ⟨e', he', -, hstart⟩ := exists_start_of_stop h he hstop hsome
      exact ⟨e', he', hstart⟩
  · intro hstart
    obtain ⟨e, he, rfl⟩ := hstart
    exact ⟨by rw [entryAt?_since h he]; rfl, e, he, Or.inl rfl⟩

/-- The significant versions are the starts of the entries, in order. -/
theorem significantVersions_eq_starts (h : Successive t.windows) :
    t.significantVersions = t.entries.map Entry.since := by
  have hsorted := sorted_significantVersions t
  have hentries := List.pairwise_map.mp h.sorted
  have hstarts : (t.entries.map Entry.since).Pairwise (· < ·) := List.pairwise_map.mpr hentries
  have hnodup {l : List Version} (hl : l.Pairwise (· < ·)) : l.Nodup :=
    hl.imp fun hlt heq => Nat.ne_of_lt hlt (congrArg Version.rank heq)
  have hperm := (List.perm_ext_iff_of_nodup (hnodup hsorted) (hnodup hstarts)).mpr
    fun v => significant_iff_start h
  exact hperm.eq_of_pairwise
    (fun a b _ _ hab hba => absurd (Nat.lt_trans hab hba) (Nat.lt_irrefl _)) hsorted hstarts

/-! ### The last significant version -/

theorem LastSignificant.unique {w' : Version} (h : t.LastSignificant v w)
    (h' : t.LastSignificant v w') : w = w' := by
  obtain ⟨hw, hle, hlast⟩ := h
  obtain ⟨hw', hle', hlast'⟩ := h'
  exact Version.rank_inj.mp (Nat.le_antisymm (hlast' w hw hle) (hlast w' hw' hle'))

/-- An entry that holds a version has started at the last significant version up to it. -/
theorem lastSignificant_of_entryAt? (h : Successive t.windows) (he : t.entryAt? v = some e) :
    t.LastSignificant v e.since := by
  obtain ⟨hmem, hv⟩ := (entryAt?_eq_some_iff h).mp he
  refine ⟨(significant_iff_start h).mpr (List.mem_map_of_mem hmem),
    (Window.contains_iff.mp hv).1, fun u hu hle => ?_⟩
  obtain ⟨e', he', rfl⟩ := List.mem_map.mp ((significant_iff_start h).mp hu)
  exact Entry.since_le_of_contains h hmem hv he' hle

/-- What a timeline has at the last significant version up to a version, it has at the version,
if it has anything there. -/
theorem entryAt?_eq_of_lastSignificant (h : Successive t.windows)
    (hv : (t.entryAt? v).isSome = true) (hw : t.LastSignificant v w) :
    t.entryAt? v = t.entryAt? w := by
  obtain ⟨e, he⟩ := Option.isSome_iff_exists.mp hv
  obtain rfl := hw.unique (lastSignificant_of_entryAt? h he)
  rw [he, entryAt?_since h ((entryAt?_eq_some_iff h).mp he).1]

theorem isSome_at?_iff : (t.at? v).isSome = true ↔ (t.entryAt? v).isSome = true := by
  rw [at?, Option.isSome_map]

/-- Timelines that change at the same versions and agree there agree wherever both have a
value. -/
theorem at?_eq_of_samples (h : Successive t.windows) (h' : Successive t'.windows)
    (hsame : t'.significantVersions = t.significantVersions)
    (hsamples : ∀ w ∈ t.significantVersions, t'.at? w = t.at? w)
    (hv : (t.at? v).isSome = true) (hv' : (t'.at? v).isSome = true) : t'.at? v = t.at? v := by
  obtain ⟨e, he⟩ := Option.isSome_iff_exists.mp (isSome_at?_iff.mp hv)
  have hlast := lastSignificant_of_entryAt? h he
  have hlast' : t'.LastSignificant v e.since := by
    unfold LastSignificant at hlast ⊢
    rwa [hsame]
  calc t'.at? v = t'.at? e.since := by
        rw [at?, at?, entryAt?_eq_of_lastSignificant h' (isSome_at?_iff.mp hv') hlast']
    _ = t.at? e.since := hsamples _ hlast.1
    _ = t.at? v := by
        rw [at?, at?, entryAt?_eq_of_lastSignificant h (isSome_at?_iff.mp hv) hlast]

/-- **A timeline is known from its significant versions.** They are the starts of its entries:
wherever an entry stops and there is still a value, another entry starts. So all of them have a
value. An entry that holds a version is the one that starts at the last significant version up
to it, and what the timeline has there it has at the version. Another timeline that changes at
the same versions and has the same values there has the same value at every version at which
both have one. -/
theorem known_from_significantVersions (made : t.Made) :
    t.significantVersions = t.entries.map Entry.since ∧
    (∀ e ∈ t.entries, ∀ stop ∈ e.stop, (t.entryAt? stop).isSome = true →
      ∃ e' ∈ t.entries, e' ≠ e ∧ e'.since = stop) ∧
    (∀ w ∈ t.significantVersions, (t.entryAt? w).isSome = true) ∧
    (∀ v e, t.entryAt? v = some e → t.LastSignificant v e.since ∧
      ∀ e' ∈ t.entries, e'.since = e.since → e' = e) ∧
    (∀ v w, (t.entryAt? v).isSome = true → t.LastSignificant v w →
      t.entryAt? v = t.entryAt? w) ∧
    ∀ t' : Timeline α, t'.Made → t'.significantVersions = t.significantVersions →
      (∀ w ∈ t.significantVersions, t'.at? w = t.at? w) →
      ∀ v, (t.at? v).isSome = true → (t'.at? v).isSome = true → t'.at? v = t.at? v := by
  have h := made.successive
  refine ⟨significantVersions_eq_starts h, fun e he stop hstop => exists_start_of_stop h he hstop,
    fun w hw => (mem_significantVersions_iff.mp hw).1, fun v e he => ?_,
    fun v w => entryAt?_eq_of_lastSignificant h,
    fun t' made' hsame hsamples v => at?_eq_of_samples h made'.successive hsame hsamples⟩
  refine ⟨lastSignificant_of_entryAt? h he, fun e' he' hsince => ?_⟩
  have hmem := ((entryAt?_eq_some_iff h).mp he).1
  exact Option.some.inj ((entryAt?_since h he').symm.trans (hsince ▸ entryAt?_since h hmem))

/-- A value that is replaced, pauses and comes back, with two stops left to choose. -/
def seasons (firstStop lastStop : Option Version) : List (Entry Nat) :=
  [⟨0, .classic, firstStop⟩, ⟨1, .dated20190322, some .dated20190516⟩,
   ⟨2, .dated20190522, lastStop⟩]

/-- The stops do not show in the significant versions, whether another entry follows at once,
after a gap or not at all. -/
theorem known_from_significantVersions_seasons :
    ∃ t t' : Timeline Nat,
      (Draft.ofAdditions (seasons (some .dated20190322) (some .dated20201117))).build = .ok t ∧
      (Draft.ofAdditions (seasons (some .dated20190221) none)).build = .ok t' ∧
      t.significantVersions = [.classic, .dated20190322, .dated20190522] ∧
      t'.significantVersions = t.significantVersions ∧
      (∀ w ∈ t.significantVersions, t'.at? w = t.at? w) ∧
      t.LastSignificant .dated20191219 .dated20190522 ∧
      t.entryAt? .dated20191219 = t.entryAt? .dated20190522 ∧
      t'.at? .dated20191219 = t.at? .dated20191219 := by
  let t : Timeline Nat := ⟨⟨0, .classic, some .dated20190322⟩,
    [⟨1, .dated20190322, some .dated20190516⟩, ⟨2, .dated20190522, some .dated20201117⟩]⟩
  let t' : Timeline Nat := ⟨⟨0, .classic, some .dated20190221⟩,
    [⟨1, .dated20190322, some .dated20190516⟩, ⟨2, .dated20190522, none⟩]⟩
  have ht : (Draft.ofAdditions (seasons (some .dated20190322) (some .dated20201117))).build =
      .ok t := rfl
  have ht' : (Draft.ofAdditions (seasons (some .dated20190221) none)).build = .ok t' := rfl
  have hsame : t'.significantVersions = t.significantVersions := by decide
  have hsamples : ∀ w ∈ t.significantVersions, t'.at? w = t.at? w := by decide
  obtain ⟨hstarts, -, -, hstarted, hlast, hknown⟩ := known_from_significantVersions (.build ht)
  obtain ⟨hlater, -⟩ := hstarted .dated20191219 _ rfl
  exact ⟨t, t', ht, ht', hstarts, hsame, hsamples, hlater, hlast _ _ rfl hlater,
    hknown t' (.build ht') hsame hsamples _ rfl rfl⟩

end Timeline

end ApiChronicle
