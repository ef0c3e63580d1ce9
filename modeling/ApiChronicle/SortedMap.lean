/-! # ApiChronicle.SortedMap

Finite maps kept as **strictly sorted lists of entries**.

Registries, member tables and parameter tables are all listed in key order, and
two of them are equal exactly when they hold the same entries. Both facts come
for free from the representation: a `SortedMap` is its list of entries together
with the proof that the keys increase strictly, so a map has one representative
and `ext_get?` turns pointwise agreement into equality.

The maps of one catalogue are small, so insertion walks the list.
-/

namespace ApiChronicle

open Std

/-- A finite map whose entries are listed by strictly increasing key. -/
structure SortedMap (κ : Type) (υ : Type) [Ord κ] where
  /-- The entries in key order. -/
  entries : List (κ × υ)
  /-- No key is listed twice, and smaller keys come first. -/
  sorted : entries.Pairwise fun a b => compare a.1 b.1 = .lt

namespace SortedMap

variable {κ υ ω : Type} [Ord κ]

instance [DecidableEq κ] [DecidableEq υ] : DecidableEq (SortedMap κ υ) := fun m n =>
  decidable_of_iff (m.entries = n.entries) ⟨fun h => by cases m; cases n; congr, congrArg entries⟩

/-- Two maps with the same entries are the same map. -/
theorem ext_entries {m n : SortedMap κ υ} (h : m.entries = n.entries) : m = n := by
  cases m; cases n; congr

def empty : SortedMap κ υ := ⟨[], List.Pairwise.nil⟩

instance : EmptyCollection (SortedMap κ υ) := ⟨empty⟩

instance : Inhabited (SortedMap κ υ) := ⟨empty⟩

/-- The number of keys. -/
def size (m : SortedMap κ υ) : Nat := m.entries.length

/-- The keys, smallest first. -/
def keys (m : SortedMap κ υ) : List κ := m.entries.map (·.1)

/-- The values, ordered by their keys. -/
def values (m : SortedMap κ υ) : List υ := m.entries.map (·.2)

/-- The value listed under a key. -/
def lookup (k : κ) : List (κ × υ) → Option υ
  | [] => none
  | (k', v) :: rest => if compare k k' = .eq then some v else lookup k rest

/-- The value under `k`, if there is one. -/
def get? (m : SortedMap κ υ) (k : κ) : Option υ := lookup k m.entries

def contains (m : SortedMap κ υ) (k : κ) : Bool := (m.get? k).isSome

/-- Insertion into a sorted list of entries; an entry with the same key is
replaced where it stands. -/
def insertEntry (k : κ) (v : υ) : List (κ × υ) → List (κ × υ)
  | [] => [(k, v)]
  | (k', v') :: rest =>
    match compare k k' with
    | .lt => (k, v) :: (k', v') :: rest
    | .eq => (k, v) :: rest
    | .gt => (k', v') :: insertEntry k v rest

/-- Every entry after an insertion is the new one or an old one. -/
theorem mem_insertEntry {k : κ} {v : υ} {e : κ × υ} {l : List (κ × υ)}
    (h : e ∈ insertEntry k v l) : e = (k, v) ∨ e ∈ l := by
  induction l with
  | nil => simpa [insertEntry] using h
  | cons hd tl ih =>
    obtain ⟨k', v'⟩ := hd
    rw [insertEntry] at h
    split at h
    · simpa using h
    · rcases List.mem_cons.1 h with h | h
      · exact Or.inl h
      · exact Or.inr (List.mem_cons_of_mem _ h)
    · rcases List.mem_cons.1 h with h | h
      · exact Or.inr (h ▸ List.mem_cons_self)
      · exact (ih h).imp id (List.mem_cons_of_mem _)

/-- Insertion keeps the keys strictly increasing. -/
theorem sorted_insertEntry [TransOrd κ] (k : κ) (v : υ) {l : List (κ × υ)}
    (h : l.Pairwise fun a b => compare a.1 b.1 = .lt) :
    (insertEntry k v l).Pairwise fun a b => compare a.1 b.1 = .lt := by
  induction l with
  | nil => simp [insertEntry]
  | cons hd tl ih =>
    obtain ⟨k', v'⟩ := hd
    obtain ⟨hhd, htl⟩ := List.pairwise_cons.1 h
    rw [insertEntry]
    split
    · next hlt =>
      refine List.pairwise_cons.2 ⟨fun e he => ?_, h⟩
      rcases List.mem_cons.1 he with rfl | he
      · exact hlt
      · exact TransCmp.lt_trans hlt (hhd e he)
    · next heq =>
      refine List.pairwise_cons.2 ⟨fun e he => ?_, htl⟩
      exact TransCmp.lt_of_eq_of_lt heq (hhd e he)
    · next hgt =>
      refine List.pairwise_cons.2 ⟨fun e he => ?_, ih htl⟩
      rcases mem_insertEntry he with rfl | he
      · exact OrientedCmp.lt_of_gt hgt
      · exact hhd e he

/-- The map with `v` under `k`, whatever stood there before. -/
def insert [TransOrd κ] (m : SortedMap κ υ) (k : κ) (v : υ) : SortedMap κ υ :=
  ⟨insertEntry k v m.entries, sorted_insertEntry k v m.sorted⟩

/-- The map that holds the listed entries; of two with one key the later wins. -/
def ofList [TransOrd κ] (entries : List (κ × υ)) : SortedMap κ υ :=
  entries.foldl (fun m e => m.insert e.1 e.2) empty

/-- The map with every value transformed. -/
def map (f : υ → ω) (m : SortedMap κ υ) : SortedMap κ ω :=
  ⟨m.entries.map fun e => (e.1, f e.2), List.pairwise_map.2 m.sorted⟩

@[simp] theorem entries_map (f : υ → ω) (m : SortedMap κ υ) :
    (m.map f).entries = m.entries.map fun e => (e.1, f e.2) := rfl

@[simp] theorem keys_map (f : υ → ω) (m : SortedMap κ υ) : (m.map f).keys = m.keys := by
  simp [keys, Function.comp_def]

@[simp] theorem get?_empty (k : κ) : (empty : SortedMap κ υ).get? k = none := rfl

theorem get?_map (f : υ → ω) (m : SortedMap κ υ) (k : κ) :
    (m.map f).get? k = (m.get? k).map f := by
  obtain ⟨l, hl⟩ := m
  show lookup k (l.map _) = (lookup k l).map f
  clear hl
  induction l with
  | nil => rfl
  | cons hd tl ih =>
    obtain ⟨k', v'⟩ := hd
    by_cases h : compare k k' = .eq <;> simp [lookup, h, ih]

/-! ### Lookup after insertion, and extensionality -/

theorem lookup_insertEntry [TransOrd κ] (k : κ) (v : υ) (x : κ) (l : List (κ × υ)) :
    lookup x (insertEntry k v l) = if compare x k = .eq then some v else lookup x l := by
  induction l with
  | nil => simp [insertEntry, lookup]
  | cons hd tl ih =>
    obtain ⟨k', v'⟩ := hd
    rw [insertEntry]
    split
    · simp [lookup]
    · next heq =>
      have hx : compare x k' = compare x k := (TransCmp.congr_right heq).symm
      simp only [lookup, hx]
      split <;> rfl
    · next hgt =>
      simp only [lookup, ih]
      by_cases hx : compare x k' = .eq
      · have hk : compare x k ≠ .eq := fun h => by
          rw [TransCmp.congr_left hx] at h
          rw [OrientedCmp.eq_comm.1 h] at hgt
          exact absurd hgt (by decide)
        simp [hx, hk]
      · simp [hx]

/-- Insertion sets one key and leaves every other as it was. -/
theorem get?_insert [TransOrd κ] (m : SortedMap κ υ) (k : κ) (v : υ) (x : κ) :
    (m.insert k v).get? x = if compare x k = .eq then some v else m.get? x :=
  lookup_insertEntry k v x m.entries

/-- A key below every listed key has no value. -/
theorem lookup_eq_none [TransOrd κ] {k : κ} {l : List (κ × υ)}
    (h : ∀ e ∈ l, compare k e.1 = .lt) : lookup k l = none := by
  induction l with
  | nil => rfl
  | cons hd tl ih =>
    have hhd := h hd List.mem_cons_self
    rw [lookup, if_neg (by rw [hhd]; decide), ih fun e he => h e (List.mem_cons_of_mem _ he)]

/-- Sorted lists of entries with the same look-ups are equal. -/
theorem eq_of_lookup_eq [TransOrd κ] [LawfulEqOrd κ] {l₁ l₂ : List (κ × υ)}
    (h₁ : l₁.Pairwise fun a b => compare a.1 b.1 = .lt)
    (h₂ : l₂.Pairwise fun a b => compare a.1 b.1 = .lt)
    (h : ∀ k, lookup k l₁ = lookup k l₂) : l₁ = l₂ := by
  induction l₁ generalizing l₂ with
  | nil =>
    cases l₂ with
    | nil => rfl
    | cons e₂ t₂ => simpa [lookup] using h e₂.1
  | cons e₁ t₁ ih =>
    cases l₂ with
    | nil => simpa [lookup] using h e₁.1
    | cons e₂ t₂ =>
      obtain ⟨ha₁, ht₁⟩ := List.pairwise_cons.1 h₁
      obtain ⟨ha₂, ht₂⟩ := List.pairwise_cons.1 h₂
      have hkey : compare e₁.1 e₂.1 = .eq := by
        cases hc : compare e₁.1 e₂.1 with
        | eq => rfl
        | lt =>
          have hnone := lookup_eq_none (k := e₁.1) (l := e₂ :: t₂) fun e he => by
            rcases List.mem_cons.1 he with rfl | he
            · exact hc
            · exact TransCmp.lt_trans hc (ha₂ e he)
          have hself := h e₁.1
          rw [hnone] at hself
          simp [lookup] at hself
        | gt =>
          have hc' := OrientedCmp.lt_of_gt hc
          have hnone := lookup_eq_none (k := e₂.1) (l := e₁ :: t₁) fun e he => by
            rcases List.mem_cons.1 he with rfl | he
            · exact hc'
            · exact TransCmp.lt_trans hc' (ha₁ e he)
          have hself := h e₂.1
          rw [hnone] at hself
          simp [lookup] at hself
      have hkeys : e₁.1 = e₂.1 := LawfulEqCmp.eq_of_compare hkey
      have hvals : e₁.2 = e₂.2 := by simpa [lookup, hkeys] using h e₁.1
      have htail : t₁ = t₂ := ih ht₁ ht₂ fun k => by
        by_cases hk : compare k e₁.1 = .eq
        · have hk₂ : compare k e₂.1 = .eq := hkeys ▸ hk
          rw [lookup_eq_none fun e he => by rw [TransCmp.congr_left hk]; exact ha₁ e he,
            lookup_eq_none fun e he => by rw [TransCmp.congr_left hk₂]; exact ha₂ e he]
        · have hk₂ : compare k e₂.1 ≠ .eq := hkeys ▸ hk
          simpa [lookup, hk, hk₂] using h k
      rw [htail, Prod.ext hkeys hvals]

/-- Maps that answer every look-up alike are equal. -/
theorem ext_get? [TransOrd κ] [LawfulEqOrd κ] {m n : SortedMap κ υ}
    (h : ∀ k, m.get? k = n.get? k) : m = n :=
  ext_entries (eq_of_lookup_eq m.sorted n.sorted h)

end SortedMap

/-- A finite set listed in order. -/
abbrev SortedSet (κ : Type) [Ord κ] := SortedMap κ Unit

namespace SortedSet

variable {κ : Type} [Ord κ] [TransOrd κ]

/-- The set of the listed members. -/
def ofList (members : List κ) : SortedSet κ :=
  SortedMap.ofList (members.map fun k => (k, ()))

end SortedSet

end ApiChronicle
