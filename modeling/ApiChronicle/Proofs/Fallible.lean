import ApiChronicle.InPlace
import Mathlib.Data.List.Forall2

/-! # ApiChronicle.Proofs.Fallible

**Computations that may fail**, opened from how they end.

A definition that is put together in steps succeeds exactly if every step does, and
fails with the fault of one of them. These lemmas take the end of the whole apart, so
that no proof about such a definition splits its steps by hand. An operation in place
also leaves a state behind; one that fails leaves the state its failing step found
(`EStateM.ofExcept_bind_eq_error_iff`).
-/

namespace ApiChronicle

variable {ε ε' α β : Type}

theorem Except.bind_eq_ok_iff {x : Except ε α} {f : α → Except ε β} {b : β} :
    (x >>= f) = .ok b ↔ ∃ a, x = .ok a ∧ f a = .ok b := by
  cases x <;> simp [bind, Except.bind]

theorem Except.pure_eq_ok_iff {a b : α} : (pure a : Except ε α) = .ok b ↔ a = b := by
  simp [pure, Except.pure]

theorem Except.mapError_eq_ok_iff {f : ε → ε'} {x : Except ε α} {a : α} :
    x.mapError f = .ok a ↔ x = .ok a := by
  cases x <;> simp [Except.mapError]

theorem Except.bind_eq_error_iff {x : Except ε α} {f : α → Except ε β} {e : ε} :
    (x >>= f) = .error e ↔ x = .error e ∨ ∃ a, x = .ok a ∧ f a = .error e := by
  cases x <;> simp [bind, Except.bind]

theorem Except.mapError_eq_error_iff {f : ε → ε'} {x : Except ε α} {e' : ε'} :
    x.mapError f = .error e' ↔ ∃ e, x = .error e ∧ f e = e' := by
  cases x <;> simp [Except.mapError]

theorem Except.isOk_iff_exists {x : Except ε α} : x.isOk = true ↔ ∃ a, x = .ok a := by
  cases x <;> simp [Except.isOk, Except.toBool]

/-- A run over a list succeeds if every step does. -/
theorem List.exists_mapM_eq_ok {f : α → Except ε β} {l : List α}
    (h : ∀ a ∈ l, ∃ b, f a = .ok b) : ∃ bs, l.mapM f = .ok bs := by
  induction l with
  | nil => exact ⟨[], rfl⟩
  | cons a rest ih =>
      obtain ⟨b, hb⟩ := h a List.mem_cons_self
      obtain ⟨bs, hbs⟩ := ih fun x hx => h x (List.mem_cons_of_mem _ hx)
      refine ⟨b :: bs, ?_⟩
      rw [List.mapM_cons, Except.bind_eq_ok_iff]
      refine ⟨b, hb, Except.bind_eq_ok_iff.mpr ⟨bs, hbs, rfl⟩⟩

/-- A run over a list fails at its first failing step. -/
theorem List.mapM_eq_error_iff {f : α → Except ε β} {l : List α} {e : ε} :
    l.mapM f = .error e ↔ ∃ before a behind, l = before ++ a :: behind ∧
      (∀ x ∈ before, ∃ b, f x = .ok b) ∧ f a = .error e := by
  constructor
  · intro h
    induction l with
    | nil => cases h
    | cons a rest ih =>
        rw [List.mapM_cons, Except.bind_eq_error_iff] at h
        rcases h with h | ⟨b, hb, h⟩
        · exact ⟨[], a, rest, rfl, nofun, h⟩
        rcases Except.bind_eq_error_iff.mp h with h | ⟨bs, -, h⟩
        · obtain ⟨before, a', behind, rfl, hbefore, hfails⟩ := ih h
          exact ⟨a :: before, a', behind, rfl, List.forall_mem_cons.mpr ⟨⟨b, hb⟩, hbefore⟩, hfails⟩
        · cases h
  · intro h
    obtain ⟨before, a, behind, rfl, hbefore, hfails⟩ := h
    obtain ⟨bs, hbs⟩ := List.exists_mapM_eq_ok hbefore
    rw [List.mapM_append, Except.bind_eq_error_iff]
    refine Or.inr ⟨bs, hbs, Except.bind_eq_error_iff.mpr (Or.inl ?_)⟩
    rw [List.mapM_cons]
    exact Except.bind_eq_error_iff.mpr (Or.inl hfails)

/-! ### Steps and results in pairs -/

/-- What holds of two lists in pairs holds at every place. -/
theorem List.exists_getElem?_of_forall₂ {R : α → β → Prop} {l : List α} {l' : List β}
    (h : List.Forall₂ R l l') {i : Nat} {a : α} (ha : l[i]? = some a) :
    ∃ b, l'[i]? = some b ∧ R a b := by
  induction h generalizing i with
  | nil => simp at ha
  | cons hab _ ih =>
      cases i with
      | zero =>
          obtain rfl := Option.some.inj ha
          exact ⟨_, rfl, hab⟩
      | succ i => exact ih ha

theorem List.exists_mem_of_forall₂ {R : α → β → Prop} {l : List α} {l' : List β}
    (h : List.Forall₂ R l l') {a : α} (ha : a ∈ l) : ∃ b ∈ l', R a b := by
  obtain ⟨i, hi⟩ := List.mem_iff_getElem?.mp ha
  obtain ⟨b, hb, hab⟩ := List.exists_getElem?_of_forall₂ h hi
  exact ⟨b, List.mem_of_getElem? hb, hab⟩

theorem List.map_eq_map_of_forall₂ {γ : Type} {f : α → γ} {g : β → γ} {l : List α} {l' : List β}
    (h : List.Forall₂ (fun a b => f a = g b) l l') : l.map f = l'.map g := by
  rwa [← List.forall₂_eq_eq_eq, List.forall₂_map_left_iff, List.forall₂_map_right_iff]

/-- A run over a list succeeds with the results of its steps, in order. -/
theorem List.mapM_eq_ok_iff {f : α → Except ε β} {l : List α} {bs : List β} :
    l.mapM f = .ok bs ↔ List.Forall₂ (fun a b => f a = .ok b) l bs := by
  induction l generalizing bs with
  | nil =>
      rw [List.mapM_nil, Except.pure_eq_ok_iff, List.forall₂_nil_left_iff, eq_comm]
  | cons a rest ih =>
      rw [List.mapM_cons, Except.bind_eq_ok_iff, List.forall₂_cons_left_iff]
      refine exists_congr fun b => ?_
      simp only [Except.bind_eq_ok_iff, Except.pure_eq_ok_iff, ih, exists_and_left,
        eq_comm (a := bs)]

/-- What a successful run over a list has produced, its steps have. -/
theorem List.mem_of_mapM_eq_ok {f : α → Except ε β} {l : List α} {bs : List β}
    (h : l.mapM f = .ok bs) :
    (∀ a ∈ l, ∃ b ∈ bs, f a = .ok b) ∧ ∀ b ∈ bs, ∃ a ∈ l, f a = .ok b := by
  have hpairs := List.mapM_eq_ok_iff.mp h
  exact ⟨fun a ha => List.exists_mem_of_forall₂ hpairs ha,
    fun b hb => List.exists_mem_of_forall₂ hpairs.flip hb⟩

/-- A run whose steps carry out other steps carries out a run of those. -/
theorem List.mapM_map_eq_ok {γ δ : Type} {f : α → Except ε β} {g : γ → Except ε δ}
    (source : α → γ) (result : β → δ)
    (hstep : ∀ a b, f a = .ok b → g (source a) = .ok (result b)) {l : List α} {bs : List β}
    (h : l.mapM f = .ok bs) : (l.map source).mapM g = .ok (bs.map result) := by
  rw [List.mapM_eq_ok_iff] at h ⊢
  rw [List.forall₂_map_left_iff, List.forall₂_map_right_iff]
  exact h.imp hstep

theorem List.mapM_append_eq_ok {f : α → Except ε β} {l l' : List α} {bs bs' : List β}
    (h : l.mapM f = .ok bs) (h' : l'.mapM f = .ok bs') : (l ++ l').mapM f = .ok (bs ++ bs') :=
  List.mapM_eq_ok_iff.mpr
    (List.rel_append (List.mapM_eq_ok_iff.mp h) (List.mapM_eq_ok_iff.mp h'))

/-! ### Runs that carry a state -/

theorem List.foldlM_cons_eq_ok_iff {f : β → α → Except ε β} {a : α} {l : List α} {b c : β} :
    (a :: l).foldlM f b = .ok c ↔ ∃ b', f b a = .ok b' ∧ l.foldlM f b' = .ok c := by
  rw [List.foldlM_cons, Except.bind_eq_ok_iff]

theorem List.foldlM_concat_eq_ok_iff {f : β → α → Except ε β} {a : α} {l : List α} {b c : β} :
    (l ++ [a]).foldlM f b = .ok c ↔ ∃ b', l.foldlM f b = .ok b' ∧ f b' a = .ok c := by
  simp [List.foldlM_append, Except.bind_eq_ok_iff]

/-- A run that carries a state fails at one of its steps, and the steps before it succeed. -/
theorem List.exists_of_foldlM_eq_error {f : β → α → Except ε β} {l : List α} {b : β} {e : ε}
    (h : l.foldlM f b = .error e) :
    ∃ before a behind b', l = before ++ a :: behind ∧ before.foldlM f b = .ok b' ∧
      f b' a = .error e := by
  induction l generalizing b with
  | nil => cases h
  | cons a rest ih =>
      rw [List.foldlM_cons, Except.bind_eq_error_iff] at h
      rcases h with h | ⟨b', hstep, h⟩
      · exact ⟨[], a, rest, b, rfl, rfl, h⟩
      · obtain ⟨before, a', behind, c, rfl, hbefore, hfails⟩ := ih h
        exact ⟨a :: before, a', behind, c, rfl,
          List.foldlM_cons_eq_ok_iff.mpr ⟨b', hstep, hbefore⟩, hfails⟩

/-! ### Operations in place -/

section InPlace

variable {σ : Type} {x : EStateM ε σ α} {check : Except ε α} {f : α → EStateM ε σ β} {s s' : σ}
  {a : α} {b : β} {e : ε}

theorem EStateM.bind_eq_ok_iff :
    (x >>= f).run s = .ok b s' ↔ ∃ a s₁, x.run s = .ok a s₁ ∧ (f a).run s₁ = .ok b s' := by
  rw [EStateM.run_bind]
  cases x.run s <;> simp

/-- A check that is passed hands on the state it found. -/
theorem EStateM.ofExcept_bind_eq_ok_iff :
    (ofExcept check >>= f).run s = .ok b s' ↔ ∃ a, check = .ok a ∧ (f a).run s = .ok b s' := by
  cases check with
  | ok a => simp [ofExcept]
  | error e =>
      have hfails : (ofExcept (.error e) >>= f).run s = .error e s := rfl
      simp [hfails]

/-- A check that is not passed leaves the state it found. -/
theorem EStateM.ofExcept_bind_eq_error_iff :
    (ofExcept check >>= f).run s = .error e s' ↔
      (check = .error e ∧ s' = s) ∨ ∃ a, check = .ok a ∧ (f a).run s = .error e s' := by
  cases check with
  | ok a => simp [ofExcept]
  | error e' =>
      have hfails : (ofExcept (.error e') >>= f).run s = .error e' s := rfl
      simp [hfails, eq_comm]

/-- A check made of two is passed one after the other. -/
theorem EStateM.ofExcept_bind {further : α → Except ε β} :
    (ofExcept (check >>= further) : EStateM ε σ β) =
      ofExcept check >>= fun a => ofExcept (further a) := by
  cases check <;> rfl

theorem EStateM.kept_ofExcept_bind :
    ((ofExcept check >>= f).run s).kept = check >>= fun a => ((f a).run s).kept := by
  cases check <;> rfl

/-- What is kept does not depend on what an operation answers. -/
theorem EStateM.kept_bind_pure :
    ((x >>= fun _ => pure b).run s).kept = (x.run s).kept := by
  rw [EStateM.run_bind]
  cases x.run s <;> rfl

theorem EStateM.kept_eq_ok_iff {o : EStateM.Result ε σ α} :
    o.kept = .ok s ↔ ∃ a, o = .ok a s := by
  cases o <;> simp [EStateM.Result.kept]

end InPlace

/-! ### Computations that agree where one succeeds -/

/-- Where the first computation succeeds the second one does too, with the same result. -/
def Except.Entails (x x' : Except ε α) : Prop := ∀ a, x = .ok a → x' = .ok a

theorem Except.Entails.refl (x : Except ε α) : Except.Entails x x := fun _ h => h

theorem Except.Entails.trans {x x' x'' : Except ε α} (h : Except.Entails x x')
    (h' : Except.Entails x' x'') : Except.Entails x x'' := fun a ha => h' a (h a ha)

theorem Except.Entails.bind {x x' : Except ε α} {f f' : α → Except ε β} (h : Except.Entails x x')
    (hf : ∀ a, Except.Entails (f a) (f' a)) : Except.Entails (x >>= f) (x' >>= f') := by
  intro b hb
  obtain ⟨a, ha, hfa⟩ := Except.bind_eq_ok_iff.mp hb
  exact Except.bind_eq_ok_iff.mpr ⟨a, h a ha, hf a b hfa⟩

theorem List.entails_mapM {f f' : α → Except ε β} {l : List α}
    (h : ∀ a ∈ l, Except.Entails (f a) (f' a)) : Except.Entails (l.mapM f) (l.mapM f') := by
  intro bs hbs
  rw [List.mapM_eq_ok_iff] at hbs ⊢
  induction hbs with
  | nil => exact .nil
  | cons hab _ ih =>
      obtain ⟨ha, hrest⟩ := List.forall_mem_cons.mp h
      exact .cons (ha _ hab) (ih hrest)

theorem List.entails_foldlM {γ : Type} {f : β → α → Except ε β} {f' : β → γ → Except ε β}
    {l : List α} {l' : List γ}
    (h : List.Forall₂ (fun a a' => ∀ s, Except.Entails (f s a) (f' s a')) l l') (s : β) :
    Except.Entails (l.foldlM f s) (l'.foldlM f' s) := by
  induction h generalizing s with
  | nil => exact .refl _
  | cons ha _ ih =>
      rw [List.foldlM_cons, List.foldlM_cons]
      exact (ha s).bind ih

end ApiChronicle
