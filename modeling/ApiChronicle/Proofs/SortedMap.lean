import ApiChronicle.SortedMap
import Mathlib.Data.List.Nodup

/-! # ApiChronicle.Proofs.SortedMap

What a `SortedMap` holds, said through its **entries**.

A look-up succeeds exactly at the listed entries, keys are listed once and in
order, and a run of insertions holds nothing that was not inserted. The maps of a
definition are all built by such runs, so this is how a fact about a list of
members becomes a fact about the map made of it.
-/

namespace ApiChronicle

open Std

namespace SortedMap

variable {κ υ : Type} [Ord κ]

/-! ### Look-ups and entries -/

/-- What a look-up answers is listed under the key. -/
theorem mem_of_lookup_eq_some [LawfulEqOrd κ] {k : κ} {v : υ} {l : List (κ × υ)}
    (h : lookup k l = some v) : (k, v) ∈ l := by
  induction l with
  | nil => simp [lookup] at h
  | cons e rest ih =>
      obtain ⟨k', v'⟩ := e
      rw [lookup] at h
      split at h
      · next heq =>
        obtain rfl := LawfulEqCmp.eq_of_compare heq
        obtain rfl := Option.some.inj h
        exact List.mem_cons_self
      · exact List.mem_cons_of_mem _ (ih h)

/-- In a sorted list every entry is found under its key. -/
theorem lookup_eq_some_of_mem [TransOrd κ] {k : κ} {v : υ} {l : List (κ × υ)}
    (sorted : l.Pairwise fun a b => compare a.1 b.1 = .lt) (h : (k, v) ∈ l) :
    lookup k l = some v := by
  induction l with
  | nil => exact absurd h List.not_mem_nil
  | cons e rest ih =>
      obtain ⟨hhead, hrest⟩ := List.pairwise_cons.mp sorted
      rcases List.mem_cons.mp h with rfl | h
      · rw [lookup, if_pos ReflCmp.compare_self]
      · have hgt : compare k e.1 = .gt := OrientedCmp.gt_of_lt (hhead _ h)
        rw [lookup, if_neg (by rw [hgt]; decide)]
        exact ih hrest h

theorem get?_eq_some_iff [TransOrd κ] [LawfulEqOrd κ] {m : SortedMap κ υ} {k : κ} {v : υ} :
    m.get? k = some v ↔ (k, v) ∈ m.entries :=
  ⟨mem_of_lookup_eq_some, lookup_eq_some_of_mem m.sorted⟩

theorem contains_iff_exists {m : SortedMap κ υ} {k : κ} :
    m.contains k = true ↔ ∃ v, m.get? k = some v :=
  Option.isSome_iff_exists

theorem mem_keys_iff [TransOrd κ] [LawfulEqOrd κ] {m : SortedMap κ υ} {k : κ} :
    k ∈ m.keys ↔ m.contains k = true := by
  rw [contains_iff_exists]
  constructor
  · intro h
    obtain ⟨⟨k', v⟩, he, rfl⟩ := List.mem_map.mp h
    exact ⟨v, get?_eq_some_iff.mpr he⟩
  · intro h
    obtain ⟨v, hv⟩ := h
    exact List.mem_map.mpr ⟨(k, v), get?_eq_some_iff.mp hv, rfl⟩

/-- The keys are listed once each. -/
theorem keys_nodup [TransOrd κ] (m : SortedMap κ υ) : m.keys.Nodup := by
  refine List.pairwise_map.mpr (m.sorted.imp fun {a b} hlt heq => ?_)
  have hself : compare b.1 b.1 = .eq := ReflCmp.compare_self
  rw [heq, hself] at hlt
  exact absurd hlt (by decide)

/-- The first key that meets a condition is the smallest one that does. -/
theorem isLE_of_find?_keys [TransOrd κ] {m : SortedMap κ υ} {p : κ → Bool} {k x : κ}
    (h : m.keys.find? p = some k) (hx : x ∈ m.keys) (hp : p x = true) :
    (compare k x).isLE = true := by
  obtain ⟨-, before, behind, hkeys, hbefore⟩ := List.find?_eq_some_iff_append.mp h
  have hsorted : m.keys.Pairwise fun a b => compare a b = .lt := List.pairwise_map.mpr m.sorted
  rw [hkeys] at hx hsorted
  rcases List.mem_append.mp hx with hx | hx
  · have hfails := hbefore x hx
    rw [hp] at hfails
    cases hfails
  rcases List.mem_cons.mp hx with rfl | hx
  · exact ReflCmp.isLE_rfl
  · have hlt := (List.pairwise_cons.mp (List.pairwise_append.mp hsorted).2.1).1 x hx
    rw [hlt]
    rfl

theorem mem_values_iff [TransOrd κ] [LawfulEqOrd κ] {m : SortedMap κ υ} {v : υ} :
    v ∈ m.values ↔ ∃ k, m.get? k = some v := by
  simp only [values, List.mem_map, get?_eq_some_iff, Prod.exists, exists_eq_right]

/-- Transforming a map transforms its values. -/
theorem mem_values_map {ω : Type} {f : υ → ω} {m : SortedMap κ υ} {x : ω} :
    x ∈ (m.map f).values ↔ ∃ v ∈ m.values, f v = x := by
  have hmap : (m.map f).values = m.values.map f := by simp [values, Function.comp_def]
  rw [hmap, List.mem_map]

/-- Insertion under a key that is not listed adds one entry to those that are. -/
theorem insertEntry_perm {l : List (κ × υ)} {k : κ} (h : lookup k l = none) (v : υ) :
    (insertEntry k v l).Perm ((k, v) :: l) := by
  induction l with
  | nil => exact .refl _
  | cons e rest ih =>
      obtain ⟨k', v'⟩ := e
      rw [lookup] at h
      split at h
      · cases h
      next hne =>
      rw [insertEntry]
      split
      · exact .refl _
      · next heq => exact absurd heq hne
      · exact ((ih h).cons _).trans (.swap ..)

/-! ### Runs of insertions -/

variable [TransOrd κ]

/-- Insertion brings in one value and no other. -/
theorem mem_values_insert {m : SortedMap κ υ} {k : κ} {v x : υ}
    (h : x ∈ (m.insert k v).values) : x = v ∨ x ∈ m.values := by
  obtain ⟨e, he, rfl⟩ := List.mem_map.mp h
  rcases mem_insertEntry he with rfl | he
  · exact Or.inl rfl
  · exact Or.inr (List.mem_map.mpr ⟨e, he, rfl⟩)

section InsertionRun

variable {α : Type} {f : α → κ} {g : α → υ}

/-- A value held after a run of insertions was inserted or was there before. -/
theorem mem_values_foldl_insert {l : List α} {m : SortedMap κ υ} {x : υ}
    (h : x ∈ (l.foldl (fun m a => m.insert (f a) (g a)) m).values) :
    (∃ a ∈ l, g a = x) ∨ x ∈ m.values := by
  induction l generalizing m with
  | nil => exact Or.inr h
  | cons a rest ih =>
      rcases ih h with ⟨b, hb, rfl⟩ | h
      · exact Or.inl ⟨b, List.mem_cons_of_mem _ hb, rfl⟩
      · rcases mem_values_insert h with rfl | h
        · exact Or.inl ⟨a, List.mem_cons_self, rfl⟩
        · exact Or.inr h

/-- An answer after a run of insertions was inserted or was there before. -/
theorem get?_foldl_insert [LawfulEqOrd κ] {l : List α} {m : SortedMap κ υ} {k : κ} {v : υ}
    (h : (l.foldl (fun m a => m.insert (f a) (g a)) m).get? k = some v) :
    (∃ a ∈ l, f a = k ∧ g a = v) ∨ m.get? k = some v := by
  induction l generalizing m with
  | nil => exact Or.inr h
  | cons a rest ih =>
      rcases ih h with ⟨b, hb, hk, hv⟩ | h
      · exact Or.inl ⟨b, List.mem_cons_of_mem _ hb, hk, hv⟩
      · rw [get?_insert] at h
        split at h
        · next heq =>
          exact Or.inl ⟨a, List.mem_cons_self, (LawfulEqCmp.eq_of_compare heq).symm,
            Option.some.inj h⟩
        · exact Or.inr h

theorem contains_insert [LawfulEqOrd κ] {m : SortedMap κ υ} {k x : κ} {v : υ} :
    (m.insert k v).contains x = true ↔ x = k ∨ m.contains x = true := by
  rw [contains, get?_insert]
  split
  · next heq => simp [LawfulEqCmp.eq_of_compare heq]
  · next hne =>
    have hxk : x ≠ k := fun h => hne (h ▸ ReflCmp.compare_self)
    simp [contains, hxk]

/-- The keys after a run of insertions are the inserted ones and the old ones. -/
theorem contains_foldl_insert [LawfulEqOrd κ] {l : List α} {m : SortedMap κ υ} {k : κ} :
    (l.foldl (fun m a => m.insert (f a) (g a)) m).contains k = true ↔
      (∃ a ∈ l, f a = k) ∨ m.contains k = true := by
  induction l generalizing m with
  | nil => simp
  | cons a rest ih =>
      rw [List.foldl_cons, ih, contains_insert, List.exists_mem_cons_iff, or_assoc,
        or_left_comm, eq_comm (a := k)]

/-- A run of insertions leaves the other keys alone. -/
theorem get?_foldl_insert_of_ne [LawfulEqOrd κ] {l : List α} {m : SortedMap κ υ} {k : κ}
    (h : ∀ a ∈ l, f a ≠ k) :
    (l.foldl (fun m a => m.insert (f a) (g a)) m).get? k = m.get? k := by
  induction l generalizing m with
  | nil => rfl
  | cons a rest ih =>
      have hne : ¬compare k (f a) = .eq := fun heq =>
        h a List.mem_cons_self (LawfulEqCmp.eq_of_compare heq).symm
      rw [List.foldl_cons, ih fun b hb => h b (List.mem_cons_of_mem _ hb), get?_insert, if_neg hne]

/-- What a run inserts under keys of their own is found there afterwards. -/
theorem get?_foldl_insert_of_mem [LawfulEqOrd κ] {l : List α} {m : SortedMap κ υ}
    (hkeys : (l.map f).Nodup) {a : α} (ha : a ∈ l) :
    (l.foldl (fun m a => m.insert (f a) (g a)) m).get? (f a) = some (g a) := by
  induction l generalizing m with
  | nil => exact absurd ha List.not_mem_nil
  | cons b rest ih =>
      rw [List.map_cons, List.nodup_cons] at hkeys
      rw [List.foldl_cons]
      rcases List.mem_cons.mp ha with rfl | ha
      · have hlater : ∀ b ∈ rest, f b ≠ f a := fun b hb heq =>
          hkeys.1 (List.mem_map.mpr ⟨b, hb, heq⟩)
        rw [get?_foldl_insert_of_ne hlater, get?_insert, if_pos ReflCmp.compare_self]
      · exact ih hkeys.2 ha

end InsertionRun

/-! ### Insertion under new keys -/

/-- Insertion under a new key adds one entry. -/
theorem entries_insert_perm {m : SortedMap κ υ} {k : κ} (h : m.contains k = false) (v : υ) :
    (m.insert k v).entries.Perm ((k, v) :: m.entries) :=
  insertEntry_perm (Option.isNone_iff_eq_none.mp (Option.isSome_eq_false_iff.mp h)) v

/-- Insertions under two keys may change places. -/
theorem insert_comm [LawfulEqOrd κ] (m : SortedMap κ υ) {k k' : κ} (h : k ≠ k') (v v' : υ) :
    (m.insert k v).insert k' v' = (m.insert k' v').insert k v := by
  refine ext_get? fun x => ?_
  simp only [get?_insert, Std.compare_eq_iff_eq]
  by_cases hx : x = k'
  · subst hx
    simp [h.symm]
  · simp [hx]

/-! ### Maps made of lists -/

/-- A map made of keyed members holds members only. -/
theorem mem_of_mem_values_ofList {f : υ → κ} {l : List υ} {x : υ}
    (h : x ∈ (ofList (l.map fun a => (f a, a))).values) : x ∈ l := by
  rcases mem_values_foldl_insert (f := Prod.fst) (g := Prod.snd) h with ⟨e, he, rfl⟩ | h
  · obtain ⟨a, ha, rfl⟩ := List.mem_map.mp he
    exact ha
  · exact absurd h List.not_mem_nil

theorem get?_ofList [LawfulEqOrd κ] {l : List (κ × υ)} {k : κ} {v : υ}
    (h : (ofList l).get? k = some v) : (k, v) ∈ l := by
  rcases get?_foldl_insert (f := Prod.fst) (g := Prod.snd) h with ⟨e, he, rfl, rfl⟩ | h
  · exact he
  · simp at h

theorem contains_ofList [LawfulEqOrd κ] {l : List (κ × υ)} {k : κ} :
    (ofList l).contains k = true ↔ ∃ v, (k, v) ∈ l := by
  rw [ofList, contains_foldl_insert (f := Prod.fst) (g := Prod.snd)]
  simp [contains]

/-- A list without repeated keys makes the same map in any order. -/
theorem ofList_of_perm [LawfulEqOrd κ] {l l' : List (κ × υ)} (hperm : l.Perm l')
    (hkeys : (l.map (·.1)).Nodup) : ofList l = ofList l' := by
  refine hperm.foldl_eq' (fun e he e' he' m => ?_) empty
  by_cases hkey : e.1 = e'.1
  · rw [List.inj_on_of_nodup_map hkeys he he' hkey]
  · exact insert_comm m hkey e.2 e'.2

end SortedMap

end ApiChronicle
