import ApiChronicle.Proofs.Fallible
import Mathlib.Data.List.Perm.Basic

/-! # ApiChronicle.Proofs.Reordering

**Lists in another order.**

What is listed in a document may be listed in another order, and its parts may have been
reordered in turn. So two lists are compared by `List.Reordered R`: the elements of the one
are those of the other up to `R`, in any order. Runs that may fail do not depend on the
order either: a run that takes the elements one by one has the same results in another order
(`List.mapM_of_perm`), and a run that carries a state ends in the same state if any two steps
may change places (`List.foldlM_of_perm`).
-/

namespace ApiChronicle

variable {ε α β γ : Type}

/-! ### Reordered lists -/

/-- The second list has for each element of the first one that is related to it, in some
order. -/
def List.Reordered (R : α → β → Prop) (l : List α) (l' : List β) : Prop :=
  ∃ related, List.Forall₂ R l related ∧ related.Perm l'

namespace List.Reordered

variable {R : α → β → Prop}

theorem of_perm {R : α → α → Prop} (hR : ∀ a, R a a) {l l' : List α} (h : l.Perm l') :
    List.Reordered R l l' :=
  ⟨l, List.forall₂_same.mpr fun a _ => hR a, h⟩

theorem symm {R' : β → α → Prop} (hR : ∀ a b, R a b → R' b a) {l : List α} {l' : List β}
    (h : List.Reordered R l l') : List.Reordered R' l' l := by
  obtain ⟨related, hrelated, hperm⟩ := h
  exact List.perm_comp_forall₂ hperm.symm (hrelated.flip.imp fun b a hab => hR a b hab)

theorem trans {S : β → γ → Prop} {T : α → γ → Prop} {l : List α} {l' : List β} {l'' : List γ}
    (h : List.Reordered R l l') (h' : List.Reordered S l' l'')
    (hT : ∀ a b c, R a b → S b c → T a c) : List.Reordered T l l'' := by
  obtain ⟨first, hfirst, hperm⟩ := h
  obtain ⟨second, hsecond, hperm'⟩ := h'
  obtain ⟨third, hthird, hperm''⟩ := List.perm_comp_forall₂ hperm hsecond
  refine ⟨third, ?_, hperm''.trans hperm'⟩
  clear hperm hperm''
  induction hfirst generalizing third with
  | nil =>
      cases hthird
      exact .nil
  | cons hab _ ih =>
      cases hthird with
      | cons hbc hrest => exact .cons (hT _ _ _ hab hbc) (ih _ hrest)

theorem append {l k : List α} {l' k' : List β} (h : List.Reordered R l l')
    (h' : List.Reordered R k k') : List.Reordered R (l ++ k) (l' ++ k') := by
  obtain ⟨first, hfirst, hperm⟩ := h
  obtain ⟨second, hsecond, hperm'⟩ := h'
  exact ⟨first ++ second, List.rel_append hfirst hsecond, hperm.append hperm'⟩

theorem map {α' β' : Type} {S : α' → β' → Prop} {f : α → α'} {g : β → β'}
    (hS : ∀ a b, R a b → S (f a) (g b)) {l : List α} {l' : List β} (h : List.Reordered R l l') :
    List.Reordered S (l.map f) (l'.map g) := by
  obtain ⟨related, hrelated, hperm⟩ := h
  refine ⟨related.map g, ?_, hperm.map g⟩
  rw [List.forall₂_map_left_iff, List.forall₂_map_right_iff]
  exact hrelated.imp hS

/-- Lists of parts that are reordered in their turn. -/
theorem flatMap_perm {f : α → List γ} {g : β → List γ} (hR : ∀ a b, R a b → (f a).Perm (g b))
    {l : List α} {l' : List β} (h : List.Reordered R l l') :
    (l.flatMap f).Perm (l'.flatMap g) := by
  obtain ⟨related, hrelated, hperm⟩ := h
  refine List.Perm.trans ?_ (hperm.flatMap_right g)
  clear hperm
  induction hrelated with
  | nil => exact .refl _
  | cons hab _ ih => exact (hR _ _ hab).append ih

/-- What is made of the elements is the same up to the order. -/
theorem map_perm {f : α → γ} {g : β → γ} (hR : ∀ a b, R a b → f a = g b) {l : List α}
    {l' : List β} (h : List.Reordered R l l') : (l.map f).Perm (l'.map g) := by
  obtain ⟨related, hrelated, hperm⟩ := h
  rw [List.map_eq_map_of_forall₂ (hrelated.imp hR)]
  exact hperm.map g

end List.Reordered

/-! ### Runs over reordered lists -/

/-- A run over a list has the same results in another order. -/
theorem List.mapM_of_perm {f : α → Except ε β} {l l' : List α} {bs : List β} (h : l.Perm l')
    (hbs : l.mapM f = .ok bs) : ∃ bs', l'.mapM f = .ok bs' ∧ bs.Perm bs' := by
  obtain ⟨bs', hbs', hperm⟩ := List.perm_comp_forall₂ h.symm (List.mapM_eq_ok_iff.mp hbs)
  exact ⟨bs', List.mapM_eq_ok_iff.mpr hbs', hperm.symm⟩

/-- If two steps may always change places, a run ends in the same state in any order. -/
theorem List.foldlM_of_perm {f : β → α → Except ε β}
    (hcomm : ∀ s a b s₁ s', f s a = .ok s₁ → f s₁ b = .ok s' →
      ∃ s₂, f s b = .ok s₂ ∧ f s₂ a = .ok s')
    {l l' : List α} (hperm : l.Perm l') {s s' : β} (h : l.foldlM f s = .ok s') :
    l'.foldlM f s = .ok s' := by
  induction hperm generalizing s with
  | nil => exact h
  | cons a _ ih =>
      obtain ⟨s₁, hfirst, hrest⟩ := List.foldlM_cons_eq_ok_iff.mp h
      exact List.foldlM_cons_eq_ok_iff.mpr ⟨s₁, hfirst, ih hrest⟩
  | swap a b rest =>
      obtain ⟨s₁, hfirst, h⟩ := List.foldlM_cons_eq_ok_iff.mp h
      obtain ⟨s₂, hsecond, hrest⟩ := List.foldlM_cons_eq_ok_iff.mp h
      obtain ⟨s₁', hfirst', hsecond'⟩ := hcomm _ _ _ _ _ hfirst hsecond
      exact List.foldlM_cons_eq_ok_iff.mpr
        ⟨s₁', hfirst', List.foldlM_cons_eq_ok_iff.mpr ⟨s₂, hsecond', hrest⟩⟩
  | trans _ _ ih ih' => exact ih' (ih h)

end ApiChronicle
