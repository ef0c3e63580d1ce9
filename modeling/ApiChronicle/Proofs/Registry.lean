import ApiChronicle.Proofs.Reachability
import ApiChronicle.Proofs.TimelineOrder
import ApiChronicle.Proofs.WellKinded

/-! # ApiChronicle.Proofs.Registry

What a **declaration adds** to a registry, and what a history tells.

Declaring a type sets the history of one name that nothing had before, and leaves
every other name as it was (`Registry.get?_of_insert`). A history answers for a
version like the timeline it was made of (`History.at?_ofTimeline`): that it keeps a
value for all versions in another form cannot be seen from outside.
-/

namespace ApiChronicle

namespace History

theorem at?_ofTimeline (t : Timeline Declaration) (v : Version) :
    (ofTimeline t).at? v = t.at? v := by
  unfold ofTimeline
  split
  · next hconstant =>
    obtain ⟨-, hwindow⟩ := Timeline.isConstant_iff.mp hconstant
    simp [at?, Timeline.at?, Timeline.entryAt?, Timeline.entries, hwindow]
  · rfl

/-- A history is kept without change if one entry of its timeline spans every version. -/
theorem isConstant_ofTimeline (t : Timeline Declaration) :
    (ofTimeline t).isConstant = t.isConstant := by
  unfold ofTimeline
  split
  · next hconstant => exact hconstant.symm
  · next hchanging => exact (Bool.eq_false_iff.mpr hchanging).symm

theorem mem_declarations_ofTimeline {t : Timeline Declaration} {d : Declaration}
    (h : d ∈ (ofTimeline t).declarations) : ∃ e ∈ t.entries, e.value = d := by
  unfold ofTimeline at h
  split at h
  · exact ⟨t.first, List.mem_cons_self, (List.mem_singleton.mp h).symm⟩
  · exact List.mem_map.mp h

end History

namespace Registry

variable {r r' : Registry} {n : QualifiedName} {history : History}

/-- A name is looked up before anything is declared. -/
theorem insert_run : (insert n history).run r =
    if r.isTaken n then .error (.duplicateDeclaration n) r
    else .ok () { r with types := r.types.insert n history } := by
  rw [insert, EStateM.run_bind, EStateM.run_get]
  by_cases htaken : r.isTaken n = true
  · simp [htaken]
  · simp [htaken]

theorem insert_eq_ok_iff :
    (insert n history).run r = .ok () r' ↔
      r.isTaken n = false ∧ r' = { r with types := r.types.insert n history } := by
  rw [insert_run]
  cases r.isTaken n <;> simp [eq_comm]

theorem insert_eq_error_iff {e : DefinitionError} :
    (insert n history).run r = .error e r' ↔
      r.isTaken n = true ∧ e = .duplicateDeclaration n ∧ r' = r := by
  rw [insert_run]
  cases r.isTaken n <;> simp [eq_comm]

theorem isTaken_eq_false_iff :
    r.isTaken n = false ↔ r.contains n = false ∧ ∀ twin ∈ n.twin?, r.contains twin = false := by
  unfold isTaken
  cases n.twin? <;> simp

/-- A declaration sets one name and leaves every other name as it was. -/
theorem get?_of_insert (h : (insert n history).run r = .ok () r') (m : QualifiedName) :
    r'.get? m = if m = n then some history else r.get? m := by
  obtain ⟨-, rfl⟩ := insert_eq_ok_iff.mp h
  rw [get?, SortedMap.get?_insert]
  simp only [Std.compare_eq_iff_eq]
  rfl

theorem auxiliary_of_insert (h : (insert n history).run r = .ok () r') : r'.auxiliary = r.auxiliary := by
  obtain ⟨-, rfl⟩ := insert_eq_ok_iff.mp h
  rfl

theorem contains_iff : r.contains n = true ↔ ∃ history, r.get? n = some history :=
  SortedMap.contains_iff_exists

/-- What is declared has not been declared before, and neither has its twin. -/
theorem fresh_of_insert (h : (insert n history).run r = .ok () r') :
    r.get? n = none ∧ ∀ twin ∈ n.twin?, r.contains twin = false := by
  obtain ⟨hfree, -⟩ := insert_eq_ok_iff.mp h
  obtain ⟨hname, htwin⟩ := Bool.or_eq_false_iff.mp hfree
  refine ⟨Option.isNone_iff_eq_none.mp (Option.isSome_eq_false_iff.mp hname), fun twin hmem => ?_⟩
  rw [hmem] at htwin
  exact htwin

/-- A declaration adds one entry. -/
theorem get?_of_insert_iff (h : (insert n history).run r = .ok () r') (e : QualifiedName × History) :
    r'.get? e.1 = some e.2 ↔ r.get? e.1 = some e.2 ∨ e = (n, history) := by
  obtain ⟨m, x⟩ := e
  rw [get?_of_insert h]
  by_cases hm : m = n
  · subst hm
    simp [(fresh_of_insert h).1, eq_comm]
  · simp [hm]

/-- Declarations one after the other add one entry each, and leave the auxiliary types as
they were. -/
theorem get?_of_foldlM {α : Type} {declare : Registry → α → Except DefinitionError Registry}
    {Tells : α → QualifiedName × History → Prop}
    (hstep : ∀ a r r', declare r a = .ok r' →
      ∃ e, Tells a e ∧ (insert e.1 e.2).run r = .ok () r')
    {l : List α} (h : l.foldlM declare r = .ok r') :
    r'.auxiliary = r.auxiliary ∧ ∃ entries, List.Forall₂ Tells l entries ∧
      ∀ e, r'.get? e.1 = some e.2 ↔ r.get? e.1 = some e.2 ∨ e ∈ entries := by
  induction l generalizing r with
  | nil =>
      obtain rfl := Except.ok.inj h
      exact ⟨rfl, [], .nil, by simp⟩
  | cons a rest ih =>
      obtain ⟨r₁, hfirst, hrest⟩ := List.foldlM_cons_eq_ok_iff.mp h
      obtain ⟨entry, htells, hinsert⟩ := hstep a r r₁ hfirst
      obtain ⟨hauxiliary, entries, hentries, hget⟩ := ih hrest
      refine ⟨hauxiliary.trans (auxiliary_of_insert hinsert), entry :: entries,
        .cons htells hentries, fun e => ?_⟩
      rw [hget, get?_of_insert_iff hinsert, List.mem_cons, or_assoc]

/-! ### Auxiliary types -/

theorem markAuxiliary_run : (markAuxiliary n).run r =
    if r.contains n then .ok () { r with auxiliary := r.auxiliary.insert n () }
    else .error (.missingDeclaration n) r := by
  rw [markAuxiliary, EStateM.run_bind, EStateM.run_get]
  by_cases hdeclared : r.contains n = true
  · simp [hdeclared]
  · simp [hdeclared]

theorem markAuxiliary_eq_ok_iff :
    (markAuxiliary n).run r = .ok () r' ↔
      r.contains n = true ∧ r' = { r with auxiliary := r.auxiliary.insert n () } := by
  rw [markAuxiliary_run]
  cases r.contains n <;> simp [eq_comm]

end Registry

end ApiChronicle
