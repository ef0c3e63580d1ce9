import ApiChronicle.Proofs.Fallible
import ApiChronicle.Timeline
import Mathlib.Data.List.Basic

/-! # ApiChronicle.Proofs.Timeline

**Timelines by their entries**: what the operations make of them.

Moving the outer bounds of a timeline replaces the first start and the last stop
(`entries_of_readjust`), and a restriction does this to the entries that overlap the
window (`exists_kept`). A look-up answers with the value of an entry, and
transforming the values commutes with it.
-/

namespace ApiChronicle

/-! ### Windows -/

namespace Window

theorem contains_iff {w : Window} {v : Version} :
    w.contains v = true ↔ w.since ≤ v ∧ ∀ stop ∈ w.stop, v < stop := by
  simp [contains, Option.all_eq_true]

/-- A window holds the version it starts with. -/
theorem Valid.contains_since {w : Window} (h : w.Valid) : w.contains w.since = true :=
  contains_iff.mpr ⟨Nat.le_refl _, h⟩

@[simp] theorem contains_unbounded (v : Version) : unbounded.contains v = true :=
  contains_iff.mpr ⟨Nat.zero_le _, fun _ hstop => by cases hstop⟩

theorem isUnbounded_iff {w : Window} : w.isUnbounded = true ↔ w = .unbounded := by
  obtain ⟨since, stop⟩ := w
  rw [isUnbounded, Bool.and_eq_true_iff, Option.isNone_iff_eq_none]
  exact (and_congr_left' decide_eq_true_iff).trans (by simp [unbounded])

theorem overlaps_iff {w u : Window} :
    w.overlaps u = true ↔
      (∀ stop ∈ u.stop, w.since < stop) ∧ ∀ stop ∈ w.stop, u.since < stop := by
  simp [overlaps, Option.all_eq_true]

theorem ofBounds_eq_ok {since : Version} {stop : Option Version} {w : Window}
    (h : ofBounds since stop = .ok w) : w = ⟨since, stop⟩ := by
  cases stop with
  | none => exact (Except.ok.inj h).symm
  | some stop =>
      simp only [ofBounds] at h
      split at h
      · exact (Except.ok.inj h).symm
      · cases h

end Window

namespace Timeline

variable {α : Type}

/-! ### Outer bounds -/

theorem setLastStop_getLast {stop : Option Version} {e : Entry α} {rest : List (Entry α)}
    (h : (rest.getLastD e).stop = stop) : setLastStop stop (e :: rest) = e :: rest := by
  induction rest generalizing e with
  | nil =>
      obtain rfl : e.stop = stop := h
      rfl
  | cons e' rest ih =>
      rw [List.getLastD_cons] at h
      rw [setLastStop, ih h]

/-- What a move of the outer bounds does if it is accepted: nothing, if they are there already, and
otherwise what it has checked. -/
theorem readjust_cases {t t' : Timeline α} {since : Version} {stop : Option Version}
    (h : t.readjust since stop = .ok t') :
    (t.first.since = since ∧ t.last.stop = stop ∧ t' = t) ∨
    (∃ window, t.rest = [] ∧ Window.ofBounds since stop = .ok window ∧
      t' = single t.first.value window) ∨
    ∃ head tail, Window.ofBounds since t.first.stop = .ok head ∧
      Window.ofBounds t.last.since stop = .ok tail ∧ t.rest ≠ [] ∧
      t' = ⟨{ t.first with since := since }, setLastStop stop t.rest⟩ := by
  obtain ⟨first, rest⟩ := t
  unfold readjust at h
  split at h
  · next hsame =>
    obtain rfl := Except.ok.inj h
    exact Or.inl ⟨hsame.1, hsame.2, rfl⟩
  cases rest with
  | nil =>
      obtain ⟨window, hwindow, h⟩ := Except.bind_eq_ok_iff.mp h
      obtain rfl := Except.pure_eq_ok_iff.mp h
      exact Or.inr (Or.inl ⟨window, rfl, hwindow, rfl⟩)
  | cons e rest =>
      obtain ⟨head, hhead, h⟩ := Except.bind_eq_ok_iff.mp h
      obtain ⟨tail, htail, h⟩ := Except.bind_eq_ok_iff.mp h
      obtain rfl := Except.pure_eq_ok_iff.mp h
      exact Or.inr (Or.inr ⟨head, tail, hhead, htail, List.cons_ne_nil e rest, rfl⟩)

/-- Moving the outer bounds replaces the first start and the last stop. -/
theorem entries_of_readjust {t t' : Timeline α} {since : Version} {stop : Option Version}
    (h : t.readjust since stop = .ok t') :
    t'.entries = setLastStop stop ({ t.first with since := since } :: t.rest) := by
  obtain ⟨rfl, hstop, rfl⟩ | ⟨window, hrest, hwindow, rfl⟩ | ⟨-, -, -, -, hrest, rfl⟩ :=
    readjust_cases h
  · exact (setLastStop_getLast hstop).symm
  · obtain rfl := Window.ofBounds_eq_ok hwindow
    rw [hrest]
    rfl
  · obtain ⟨e, rest, hrest⟩ := List.exists_cons_of_ne_nil hrest
    rw [hrest]
    rfl

theorem restrict_of_none {t : Timeline α} {w : Window}
    (h : t.entries.filter (·.window.overlaps w) = []) : t.restrict w = .error .empty := by
  rw [restrict, h]
  rfl

theorem restrict_of_kept {t kept : Timeline α} {w : Window}
    (h : t.entries.filter (·.window.overlaps w) = kept.entries) :
    t.restrict w = kept.readjust w.since w.stop := by
  rw [restrict, h]
  rfl

/-- Restricting keeps the overlapping entries and moves the outer bounds to those of
the window. -/
theorem exists_kept {t t' : Timeline α} {w : Window} (h : t.restrict w = .ok t') :
    ∃ kept : Timeline α, t.entries.filter (·.window.overlaps w) = kept.entries ∧
      kept.readjust w.since w.stop = .ok t' := by
  cases hkept : t.entries.filter (·.window.overlaps w) with
  | nil => cases (restrict_of_none hkept).symm.trans h
  | cons first rest => exact ⟨⟨first, rest⟩, rfl, (restrict_of_kept hkept).symm.trans h⟩

/-! ### Look-ups -/

/-- One value spans every version if there is one entry, in the window that does. -/
theorem isConstant_iff {t : Timeline α} :
    t.isConstant = true ↔ t.rest = [] ∧ t.first.window = .unbounded := by
  rw [isConstant, Bool.and_eq_true_iff, List.isEmpty_iff, Window.isUnbounded_iff]

/-- A value at a version is the value of an entry. -/
theorem mem_values_of_at? {t : Timeline α} {v : Version} {x : α} (h : t.at? v = some x) :
    x ∈ t.entries.map Entry.value := by
  obtain ⟨e, he, rfl⟩ := Option.map_eq_some_iff.mp h
  exact List.mem_map_of_mem (List.mem_of_find?_eq_some he)

/-- Transforming the values commutes with looking one up. -/
theorem at?_map {β : Type} (f : α → β) (t : Timeline α) (v : Version) :
    (t.map f).at? v = (t.at? v).map f := by
  obtain ⟨first, rest⟩ := t
  have hentries : ((⟨first, rest⟩ : Timeline α).map f).entries =
      (first :: rest).map fun e => e.withValue (f e.value) := rfl
  unfold at? entryAt?
  rw [hentries, List.find?_map]
  simp only [Function.comp_def, Option.map_map]
  rfl

end Timeline

end ApiChronicle
