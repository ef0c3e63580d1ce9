import ApiChronicle.Proofs.Restriction
import Mathlib.Data.List.Induction
import Mathlib.Data.List.MinMax

/-! # ApiChronicle.Proofs.DatedValues

**Values that hold until the next one starts**, and what a window makes of them.

At a version, the value *in force* is the one that has started last by then
(`Timeline.InForce`). If none has started, the value that starts first is *awaited*
(`Timeline.Awaited`).

Values that are added in the order of their starts, each open-ended, hold one after
the other: `spans` writes the resulting entries down and `foldlM_add_eq_spans` says
that the draft holds them. These entries show the value in force (`exists_span_iff`).
A restriction to a window stretches the earliest of them to the start of the window, so
that inside of a window every version has a value: the one in force, or the one that is
awaited (`at?_restrict_spans`).
-/

namespace ApiChronicle

open Window (Successive)

namespace Timeline

variable {α : Type} {l : List (Version × α)} {e : Entry α} {v : Version} {x : α}

/-! ### Values in force -/

/-- Of dated values, the one that has started last by a version. -/
def InForce (l : List (Version × α)) (v : Version) (dated : Version × α) : Prop :=
  dated ∈ l ∧ dated.1 ≤ v ∧ ∀ other ∈ l, other.1 ≤ v → other.1 ≤ dated.1

/-- Of dated values none of which has started by a version, the one that starts first. -/
def Awaited (l : List (Version × α)) (v : Version) (dated : Version × α) : Prop :=
  dated ∈ l ∧ v < dated.1 ∧ ∀ other ∈ l, dated.1 ≤ other.1

theorem InForce.of_perm {l' : List (Version × α)} {dated : Version × α} (hperm : l.Perm l')
    (h : InForce l v dated) : InForce l' v dated := by
  obtain ⟨hmem, hle, hlast⟩ := h
  exact ⟨hperm.mem_iff.mp hmem, hle, fun other hother => hlast other (hperm.mem_iff.mpr hother)⟩

theorem Awaited.of_perm {l' : List (Version × α)} {dated : Version × α} (hperm : l.Perm l')
    (h : Awaited l v dated) : Awaited l' v dated := by
  obtain ⟨hmem, hlt, hfirst⟩ := h
  exact ⟨hperm.mem_iff.mp hmem, hlt, fun other hother => hfirst other (hperm.mem_iff.mpr hother)⟩

/-- Of dated values, one is in force at a version, or one is awaited. -/
theorem exists_inForce_or_awaited (h : l ≠ []) (v : Version) :
    (∃ dated, InForce l v dated) ∨ ∃ dated, Awaited l v dated := by
  cases hlast : (l.filter (·.1 ≤ v)).argmax (·.1.rank) with
  | some dated =>
      obtain ⟨hmem, hle⟩ := List.mem_filter.mp (List.argmax_mem hlast)
      refine Or.inl ⟨dated, hmem, of_decide_eq_true hle, fun other hother hstarted => ?_⟩
      exact List.le_of_mem_argmax (List.mem_filter.mpr ⟨hother, decide_eq_true hstarted⟩) hlast
  | none =>
      have hnone := List.filter_eq_nil_iff.mp (List.argmax_eq_none.mp hlast)
      cases hfirst : l.argmin (·.1.rank) with
      | none => exact absurd (List.argmin_eq_none.mp hfirst) h
      | some dated =>
          have hmem := List.argmin_mem hfirst
          refine Or.inr ⟨dated, hmem, ?_, fun other hother => List.le_of_mem_argmin hother hfirst⟩
          exact Nat.lt_of_not_le fun hle => hnone dated hmem (decide_eq_true hle)

/-! ### Values one after the other -/

/-- The entries of values that each hold until the next one starts. -/
def spans : List (Version × α) → List (Entry α)
  | [] => []
  | (since, value) :: rest => ⟨value, since, rest.head?.map Prod.fst⟩ :: spans rest

/-- An entry shows one of the values and stops, if at all, at one of the starts. -/
theorem mem_spans (h : e ∈ spans l) :
    (e.since, e.value) ∈ l ∧ ∀ stop ∈ e.stop, ∃ value, (stop, value) ∈ l := by
  induction l with
  | nil => exact absurd h List.not_mem_nil
  | cons x rest ih =>
      rcases List.mem_cons.mp h with rfl | h
      · refine ⟨List.mem_cons_self, fun stop hstop => ?_⟩
        obtain ⟨y, hy, rfl⟩ := Option.map_eq_some_iff.mp hstop
        exact ⟨y.2, List.mem_cons_of_mem _ (List.mem_of_mem_head? hy)⟩
      · obtain ⟨hvalue, hstop⟩ := ih h
        refine ⟨List.mem_cons_of_mem _ hvalue, fun stop hs => ?_⟩
        obtain ⟨value, hmem⟩ := hstop stop hs
        exact ⟨value, List.mem_cons_of_mem _ hmem⟩

/-- Closing the open entry makes room for one more value. -/
theorem spans_concat {since : Version} (value : α) (hl : ∀ x ∈ l, x.1 < since) :
    spans (l ++ [(since, value)]) =
      Draft.closeOpen since (spans l) ++ [⟨value, since, none⟩] := by
  induction l with
  | nil => rfl
  | cons x rest ih =>
      obtain ⟨hx, hrest⟩ := List.forall_mem_cons.mp hl
      rw [List.cons_append, spans, ih hrest, spans, Draft.closeOpen]
      cases rest with
      | nil => simp [spans, Draft.closeOpen, hx]
      | cons y rest => simp

/-- Every dated value has an entry. -/
theorem exists_mem_spans {since : Version} (h : (since, x) ∈ l) :
    ∃ e ∈ spans l, e.since = since ∧ e.value = x := by
  induction l with
  | nil => exact absurd h List.not_mem_nil
  | cons dated rest ih =>
      rcases List.mem_cons.mp h with rfl | h
      · exact ⟨_, List.mem_cons_self, rfl, rfl⟩
      · obtain ⟨e, he, hdated⟩ := ih h
        exact ⟨e, List.mem_cons_of_mem _ he, hdated⟩

/-- A dated value starts no later than an entry, or the entry has stopped by then. -/
theorem le_since_or_stop_le (sorted : l.Pairwise fun x y => x.1 < y.1) (he : e ∈ spans l)
    {dated : Version × α} (h : dated ∈ l) :
    dated.1 ≤ e.since ∨ ∃ stop ∈ e.stop, stop ≤ dated.1 := by
  induction l with
  | nil => exact absurd h List.not_mem_nil
  | cons first rest ih =>
      obtain ⟨hfirst, hrest⟩ := List.pairwise_cons.mp sorted
      rcases List.mem_cons.mp he with rfl | hlater
      · rcases List.mem_cons.mp h with rfl | h
        · exact Or.inl (Nat.le_refl _)
        · -- the first entry stops where the next value starts
          obtain ⟨next, later, rfl⟩ := List.exists_cons_of_ne_nil (List.ne_nil_of_mem h)
          refine Or.inr ⟨next.1, rfl, ?_⟩
          rcases List.mem_cons.mp h with rfl | h
          · exact Nat.le_refl _
          · exact Nat.le_of_lt ((List.pairwise_cons.mp hrest).1 _ h)
      · rcases List.mem_cons.mp h with rfl | h
        · exact Or.inl (Nat.le_of_lt (hfirst (e.since, e.value) (mem_spans hlater).1))
        · exact ih hrest hlater h

/-- Values that are listed by their starts hold one after the other. -/
theorem successive_spans (sorted : l.Pairwise fun x y => x.1 < y.1) :
    Successive ((spans l).map Entry.window) := by
  induction l with
  | nil => exact Window.successive_nil
  | cons first rest ih =>
      obtain ⟨hfirst, hrest⟩ := List.pairwise_cons.mp sorted
      refine Window.successive_cons.mpr ⟨fun stop hstop => ?_, fun u hu => ?_, ih hrest⟩
      · obtain ⟨next, hnext, rfl⟩ := Option.map_eq_some_iff.mp hstop
        exact hfirst next (List.mem_of_mem_head? hnext)
      · obtain ⟨e, he, rfl⟩ := List.mem_map.mp hu
        have hmem := (mem_spans he).1
        obtain hle | ⟨stop, hstop, hle⟩ := le_since_or_stop_le sorted List.mem_cons_self
          (List.mem_cons_of_mem _ hmem)
        · exact absurd (hfirst _ hmem) (Nat.not_lt_of_le hle)
        · exact ⟨stop, hstop, hle⟩

/-- A draft takes a later open-ended value behind all others. -/
theorem add_spans {since : Version} (value : α)
    (sorted : (l ++ [(since, value)]).Pairwise fun x y => x.1 < y.1) :
    (Draft.add value since none).run ⟨spans l⟩ = .ok () ⟨spans (l ++ [(since, value)])⟩ := by
  have hl : ∀ x ∈ l, x.1 < since := fun x hx =>
    (List.pairwise_append.mp sorted).2.2 x hx _ (List.mem_singleton_self _)
  have hspans := successive_spans sorted
  rw [spans_concat value hl, List.map_append] at hspans
  rw [spans_concat value hl]
  exact Draft.add_behind_closed value hspans

/-- Open-ended values that are added in the order of their starts hold one after the
other. -/
theorem foldlM_add_eq_spans (sorted : l.Pairwise fun x y => x.1 < y.1) :
    l.foldlM (fun draft x => ((Draft.add x.2 x.1 none).run draft).kept) Draft.empty =
      .ok ⟨spans l⟩ := by
  induction l using List.reverseRecOn with
  | nil => rfl
  | append_singleton l x ih =>
      have hl := ih (sorted.sublist (List.sublist_append_left _ _))
      exact List.foldlM_concat_eq_ok_iff.mpr
        ⟨_, hl, EStateM.kept_eq_ok_iff.mpr ⟨(), add_spans x.2 sorted⟩⟩

/-- The entry that holds a version shows the value in force. -/
theorem exists_span_iff (sorted : l.Pairwise fun x y => x.1 < y.1) :
    (∃ e ∈ spans l, e.window.contains v = true ∧ e.value = x) ↔
      ∃ since, InForce l v (since, x) := by
  constructor
  · intro h
    obtain ⟨e, he, hv, rfl⟩ := h
    obtain ⟨hle, hstop⟩ := Window.contains_iff.mp hv
    refine ⟨e.since, (mem_spans he).1, hle, fun other hother hstarted => ?_⟩
    obtain hle | ⟨stop, hmem, hle⟩ := le_since_or_stop_le sorted he hother
    · exact hle
    · exact absurd (hstop stop hmem) (Nat.not_lt_of_le (Nat.le_trans hle hstarted))
  · intro h
    obtain ⟨since, hmem, hle, hlast⟩ := h
    obtain ⟨e, he, rfl, rfl⟩ := exists_mem_spans hmem
    refine ⟨e, he, Window.contains_iff.mpr ⟨hle, fun stop hstop => ?_⟩, rfl⟩
    -- a value that starts at the stop starts later than the last one that has started
    obtain ⟨value, hnext⟩ := (mem_spans he).2 stop hstop
    have hlt : e.since < stop :=
      (successive_spans sorted).valid _ (List.mem_map_of_mem he) stop hstop
    exact Nat.lt_of_not_le fun hstarted =>
      Nat.not_lt_of_le (hlast _ hnext hstarted) hlt

/-! ### Values in a window -/

section Restricted

variable {whole t : Timeline α} {window : Window} (sorted : l.Pairwise fun x y => x.1 < y.1)
  (hwhole : whole.entries = spans l)
include sorted hwhole

theorem successive_of_spans : Successive whole.windows := by
  rw [windows, hwhole]
  exact successive_spans sorted

variable (h : whole.restrict window = .ok t)
include h

/-- Restricted to a window, values one after the other are still the same values. -/
theorem mem_of_mem_values_restrict (hx : x ∈ t.entries.map Entry.value) :
    ∃ since, (since, x) ∈ l := by
  obtain ⟨kept, hkept, hmoved⟩ := exists_kept h
  have hk := successive_kept (successive_of_spans sorted hwhole) hkept
  rw [values_readjust hk hmoved] at hx
  obtain ⟨e, he, rfl⟩ := List.mem_map.mp hx
  have hwhere : e ∈ spans l := hwhole ▸ ((mem_kept_iff hkept).mp he).1
  exact ⟨e.since, (mem_spans hwhere).1⟩

variable (hv : window.contains v = true)
include hv

/-- Until one of them has started, they show the value that is awaited. -/
theorem at?_restrict_of_awaited {dated : Version × α} (hawaited : Awaited l v dated) :
    t.at? v = some dated.2 := by
  have ht := successive_of_spans sorted hwhole
  obtain ⟨hmem, hlt, hleast⟩ := hawaited
  obtain ⟨kept, hkept, hmoved⟩ := exists_kept h
  have hk := successive_kept ht hkept
  obtain ⟨e, he, hsince, hvalue⟩ := exists_mem_spans hmem
  rw [← hwhole] at he
  rw [← hsince] at hlt hleast
  obtain ⟨hfirst, hfirstOverlaps⟩ :=
    (mem_kept_iff (e := kept.first) hkept).mp List.mem_cons_self
  have hle : e.since ≤ kept.first.since := hleast _ (mem_spans (hwhole ▸ hfirst)).1
  -- what starts behind the version, and no later than an entry that is kept, is kept as well
  have hoverlaps : e.window.overlaps window = true := by
    refine Window.overlaps_iff.mpr ⟨fun stop hstop => ?_, fun stop hstop => ?_⟩
    · exact Nat.lt_of_le_of_lt hle ((Window.overlaps_iff.mp hfirstOverlaps).1 stop hstop)
    · have hvalid : e.since < stop := ht.valid _ (List.mem_map_of_mem he) stop hstop
      exact Nat.lt_of_le_of_lt (Window.contains_iff.mp hv).1 (Nat.lt_trans hlt hvalid)
  have hkeep : e ∈ kept.entries := (mem_kept_iff hkept).mpr ⟨he, hoverlaps⟩
  have hsame : e.since = kept.first.since :=
    Version.rank_inj.mp (Nat.le_antisymm hle (first_since_le hk hkeep))
  rw [← hvalue]
  exact (at?_readjust_eq_some_iff hk hmoved hv).mpr
    ⟨e, hkeep, Or.inr (Or.inl ⟨hsame, hlt⟩), rfl⟩

/-- Once one has started, they show the value in force. -/
theorem at?_restrict_of_inForce {dated : Version × α} (hforce : InForce l v dated) :
    t.at? v = some dated.2 := by
  have ht := successive_of_spans sorted hwhole
  obtain ⟨kept, hkept, hmoved⟩ := exists_kept h
  obtain ⟨e, he, hcontains, hvalue⟩ := (exists_span_iff sorted).mpr ⟨dated.1, hforce⟩
  rw [← hwhole] at he
  have hkeep : e ∈ kept.entries :=
    (mem_kept_iff hkept).mpr ⟨he, Window.overlaps_of_contains hcontains hv⟩
  rw [at?_readjust_of_contains (successive_kept ht hkept) hmoved hv hkeep hcontains, hvalue]

/-- There is no version at which they show nothing. -/
theorem exists_at?_restrict :
    ∃ dated, (InForce l v dated ∨ Awaited l v dated) ∧ t.at? v = some dated.2 := by
  have hne : l ≠ [] := by
    rintro rfl
    cases (hwhole : whole.first :: whole.rest = [])
  rcases exists_inForce_or_awaited hne v with ⟨dated, hforce⟩ | ⟨dated, hawaited⟩
  · exact ⟨dated, Or.inl hforce, at?_restrict_of_inForce sorted hwhole h hv hforce⟩
  · exact ⟨dated, Or.inr hawaited, at?_restrict_of_awaited sorted hwhole h hv hawaited⟩

/-- There is nothing else that they show. -/
theorem at?_restrict_spans :
    t.at? v = some x ↔ ∃ since, InForce l v (since, x) ∨ Awaited l v (since, x) := by
  constructor
  · intro hx
    obtain ⟨dated, hdated, hat⟩ := exists_at?_restrict sorted hwhole h hv
    obtain rfl := Option.some.inj (hat.symm.trans hx)
    exact ⟨dated.1, hdated⟩
  · intro hx
    obtain ⟨since, hforce | hawaited⟩ := hx
    · exact at?_restrict_of_inForce sorted hwhole h hv hforce
    · exact at?_restrict_of_awaited sorted hwhole h hv hawaited

end Restricted

end Timeline

end ApiChronicle
