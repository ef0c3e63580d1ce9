import ApiChronicle.Proofs.DerivedWords
import ApiChronicle.Proofs.LoadedDefinition
import Mathlib.Data.Finset.Max

/-! # ApiChronicle.Proofs.ReferenceSpellings

**Which spellings of a reference mean the same.**

A path is looked for by the names on it. Two references with the same names are thus looked for
in the same places (`candidates_congr`), and they are spellings of one name (`derive_eq`). But the
keys of aliases come before the search, and a key is compared as it is written. So two spellings
mean the same exactly if both are keys or neither is (`sameMeaning_iff`).

No listing of keys has all spellings of its keys: a separator in front of the longest one gives a
spelling that is longer still (`exists_respelled_not_mem`). Spelling is therefore without effect
only in a catalogue whose aliases cannot be referred to at all, because their keys are keywords.
-/

namespace ApiChronicle

/-! ### Separators in a spelling -/

namespace Name

variable {prev sep : Char} {word body rest : List Char}

/-- What stands before a word has no part in it. -/
theorem split_nil_word (prev prev' : Char) (rest : List Char) :
    split prev [] rest = split prev' [] rest := by
  cases rest with
  | nil => rfl
  | cons c rest => simp [split]

/-- A separator divides a spelling. The capital before it opens no word that it would not open at
the end. -/
theorem split_append_separator (hsep : isAlphanumeric sep = false)
    (hsmall : isLowercase sep = false) :
    split prev word (body ++ sep :: rest) = split prev word body ++ split sep [] rest := by
  induction body generalizing prev word with
  | nil => simp [split, hsep]
  | cons c body ih =>
      have hopens : opensWord prev c (body ++ sep :: rest).head? = opensWord prev c body.head? := by
        cases body with
        | nil => simp [opensWord, hsmall]
        | cons d body => rfl
      simp only [List.cons_append, split, hopens, ih]
      split_ifs
      · rw [List.append_assoc]
      · rw [List.append_assoc]
      · rfl

/-- Parts of a spelling with separators between them are read one by one. -/
theorem split_intercalate (sep : Char) (hsep : isAlphanumeric sep = false)
    (hsmall : isLowercase sep = false) (parts : List (List Char)) :
    split ' ' [] ([sep].intercalate parts) = parts.flatMap (split ' ' []) := by
  induction parts with
  | nil => rfl
  | cons part parts ih =>
      cases parts with
      | nil => simp
      | cons next parts =>
          rw [List.intercalate_cons_cons, List.append_assoc, List.singleton_append,
            split_append_separator hsep hsmall, split_nil_word sep ' ', ih,
            ← List.flatMap_cons]

end Name

namespace Catalogue.References

/-! ### The names on a path -/

/-- The words of a reference are those of the names on its path. -/
theorem words_derive (reference : String) :
    (Name.derive reference).words =
      ((segments reference).map Name.derive).flatMap Name.words := by
  have hparts := Name.split_intercalate '.' (by decide +kernel) (by decide +kernel)
    (splitAtDots reference.toList)
  rw [splitAtDots_eq_splitOn, List.intercalate_splitOn, ← splitAtDots_eq_splitOn] at hparts
  rw [Name.derive, hparts, segments, List.map_map, List.flatMap_map]
  simp [Name.derive]

/-- Where a path is looked for depends on the names on it only. -/
theorem candidates_congr {path path' : List String}
    (h : path.map Name.derive = path'.map Name.derive) (scope : List String) :
    candidates scope path = candidates scope path' := by
  simp [candidates, QualifiedName.ofPath, h]

/-! ### Other spellings -/

/-- The references `a` and `b` have the same names on their paths, and neither is a keyword. -/
@[mk_iff]
structure Respelled (a b : String) : Prop where
  names : (segments a).map Name.derive = (segments b).map Name.derive
  left : Primitive.named? a = none
  right : Primitive.named? b = none

instance (a b : String) : Decidable (Respelled a b) := decidable_of_iff' _ (respelled_iff a b)

/-- The references mean the same alias or the same declaration inside `scope`, or both mean
nothing there. -/
inductive SameMeaning (refs : References) (scope : List String) (a b : String) : Prop
  | alias (n : QualifiedName) (left : refs.named scope a = .ok (.alias n))
      (right : refs.named scope b = .ok (.alias n))
  | declaration (n : QualifiedName) (left : refs.named scope a = .ok (.declaration n))
      (right : refs.named scope b = .ok (.declaration n))
  | unknown (left : refs.named scope a = .error (.unknownType a (scopeText scope)))
      (right : refs.named scope b = .error (.unknownType b (scopeText scope)))

variable {refs : References} {scope : List String} {a b : String}

theorem Respelled.derive_eq (h : Respelled a b) : Name.derive a = Name.derive b := by
  have hwords : (Name.derive a).words = (Name.derive b).words := by
    rw [words_derive, words_derive, h.names]
  exact congrArg Name.mk hwords

/-- The key of an alias means the alias, whatever else has its name. -/
theorem named_of_mem (hprim : Primitive.named? a = none) (h : a ∈ refs.aliases)
    (scope : List String) : refs.named scope a = .ok (.alias (.alias (Name.derive a))) :=
  named_eq_ok_iff.mpr (Or.inr ⟨hprim, Or.inl ⟨h, rfl⟩⟩)

/-- No other spelling means an alias. -/
theorem mem_aliases_of_named {n : QualifiedName} (h : refs.named scope a = .ok (.alias n)) :
    a ∈ refs.aliases := by
  obtain ⟨p, -, hp⟩ | ⟨-, ⟨hkey, -⟩ | ⟨-, m, -, hm⟩⟩ := named_eq_ok_iff.mp h
  · cases hp
  · exact hkey
  · cases hm

namespace SameMeaning

theorem symm (h : SameMeaning refs scope a b) : SameMeaning refs scope b a := by
  cases h with
  | «alias» n left right => exact .alias n right left
  | declaration n left right => exact .declaration n right left
  | unknown left right => exact .unknown right left

/-- What means the same as the key of an alias is a key as well. -/
theorem mem_aliases (h : SameMeaning refs scope a b) (hprim : Primitive.named? a = none)
    (hmem : a ∈ refs.aliases) : b ∈ refs.aliases := by
  have hnamed := named_of_mem hprim hmem scope
  cases h with
  | «alias» n _ right => exact mem_aliases_of_named right
  | declaration n left _ => simp [hnamed] at left
  | unknown left _ => simp [hnamed] at left

end SameMeaning

/-- Two spellings mean the same exactly if both are keys of aliases or neither is. -/
theorem sameMeaning_iff (h : Respelled a b) :
    SameMeaning refs scope a b ↔ (a ∈ refs.aliases ↔ b ∈ refs.aliases) := by
  constructor
  · intro hsame
    exact ⟨hsame.mem_aliases h.left, hsame.symm.mem_aliases h.right⟩
  intro hkeys
  by_cases ha : a ∈ refs.aliases
  · have hleft := named_of_mem h.left ha scope
    rw [h.derive_eq] at hleft
    exact .alias _ hleft (named_of_mem h.right (hkeys.mp ha) scope)
  -- neither is a key, so both are looked for in the same places
  have hb : b ∉ refs.aliases := fun hb => ha (hkeys.mpr hb)
  have hplaces : candidates scope (segments a) = candidates scope (segments b) :=
    candidates_congr h.names scope
  cases hfind : (candidates scope (segments b)).find? (· ∈ refs.declarations) with
  | some n =>
      exact .declaration n
        (named_eq_ok_iff.mpr (Or.inr ⟨h.left, Or.inr ⟨ha, n, hplaces ▸ hfind, rfl⟩⟩))
        (named_eq_ok_iff.mpr (Or.inr ⟨h.right, Or.inr ⟨hb, n, hfind, rfl⟩⟩))
  | none =>
      exact .unknown (named_eq_error_iff.mpr ⟨h.left, ha, hplaces ▸ hfind, rfl⟩)
        (named_eq_error_iff.mpr ⟨h.right, hb, hfind, rfl⟩)

/-! ### Spellings that are no keys -/

theorem derive_underscore (part : String) : Name.derive ("_" ++ part) = Name.derive part := by
  have hsep : isAlphanumeric '_' = false := by decide +kernel
  have hsplit : Name.split ' ' [] ('_' :: part.toList) = Name.split '_' [] part.toList := by
    simp [Name.split, hsep, Name.flush]
  show Name.mk (Name.split ' ' [] ("_" ++ part).toList) = Name.mk (Name.split ' ' [] part.toList)
  rw [String.toList_append, show "_".toList = ['_'] from rfl, List.singleton_append, hsplit,
    Name.split_nil_word '_' ' ']

theorem named?_underscore (reference : String) : Primitive.named? ("_" ++ reference) = none := by
  refine List.find?_eq_none.mpr fun p _ => ?_
  have hhead : p.keyword.toList.head? ≠ some '_' := by cases p <;> decide
  intro h
  rw [of_decide_eq_true h] at hhead
  simp at hhead

/-- A separator in front of a reference gives another spelling of it. -/
theorem respelled_underscore (hprim : Primitive.named? a = none) : Respelled a ("_" ++ a) := by
  refine ⟨?_, hprim, named?_underscore a⟩
  obtain ⟨part, parts, hparts⟩ : ∃ part parts, splitAtDots a.toList = part :: parts := by
    rw [splitAtDots_eq_splitOn]
    exact List.exists_cons_of_ne_nil (List.splitOn_ne_nil '.' _)
  simp [segments, splitAtDots, hparts, derive_underscore]

/-- The longest of the keys that can be referred to is no key in its next spelling. -/
theorem exists_respelled_not_mem {keys : List String} (ha : a ∈ keys)
    (hprim : Primitive.named? a = none) : ∃ key ∈ keys, ∃ b, Respelled key b ∧ b ∉ keys := by
  let readable := keys.filter fun key => Primitive.named? key = none
  obtain ⟨key, hkey, hlongest⟩ := readable.toFinset.exists_max_image String.length
    ⟨a, by simpa [readable] using ⟨ha, hprim⟩⟩
  obtain ⟨hmem, hkeyPrim⟩ : key ∈ keys ∧ Primitive.named? key = none := by
    simpa [readable] using hkey
  refine ⟨key, hmem, "_" ++ key, respelled_underscore hkeyPrim, fun hnext => ?_⟩
  have hlength : ("_" ++ key).length ≤ key.length :=
    hlongest _ (by simpa [readable] using ⟨hnext, named?_underscore key⟩)
  rw [String.length_append, show "_".length = 1 from rfl] at hlength
  omega

/-- **Spelling is without effect exactly on keys alike.** Take two references with the same names
on their paths, neither of them a keyword. Inside any declarations they mean the same alias, the
same declaration or both nothing, exactly if both are keys of aliases as they are written or
neither is. For a whole catalogue this leaves one case: spelling is without effect in it exactly
if no alias can be referred to, because the keys of all aliases are keywords. -/
theorem respelled_same_iff_keys_alike (c : Catalogue) :
    (∀ scope a b, Respelled a b → (SameMeaning (ofCatalogue c) scope a b ↔
      (a ∈ c.aliases.map (·.1) ↔ b ∈ c.aliases.map (·.1)))) ∧
    ((∀ scope a b, Respelled a b → SameMeaning (ofCatalogue c) scope a b) ↔
      ∀ key ∈ c.aliases.map (·.1), (Primitive.named? key).isSome) := by
  refine ⟨fun scope a b h => sameMeaning_iff h, ?_⟩
  constructor
  · intro hsame key hkey
    by_contra hprim
    rw [Option.not_isSome_iff_eq_none] at hprim
    obtain ⟨a, ha, b, h, hb⟩ := exists_respelled_not_mem hkey hprim
    exact hb (((sameMeaning_iff h).mp (hsame [] a b h)).mp ha)
  · intro hkeywords scope a b h
    have hnone : ∀ x, Primitive.named? x = none → x ∉ (ofCatalogue c).aliases := by
      intro x hx hmem
      have hkeyword := hkeywords x hmem
      simp [hx] at hkeyword
    exact (sameMeaning_iff h).mpr (iff_of_false (hnone a h.left) (hnone b h.right))

/-- The books and their pages may be written in any way, from any place. The alias may not. -/
theorem respelled_same_iff_keys_alike_books :
    SameMeaning (ofCatalogue books) ["Book"] "Page" "page" ∧
    SameMeaning (ofCatalogue books) ["Book", "Page"] "Book.Page" "book.PAGE" ∧
    ¬SameMeaning (ofCatalogue books) ["Book"] "book_id" "BookId" ∧
    ¬∀ scope a b, Respelled a b → SameMeaning (ofCatalogue books) scope a b := by
  obtain ⟨hpair, hall⟩ := respelled_same_iff_keys_alike books
  refine ⟨(hpair _ _ _ (by decide +kernel)).mpr (by decide +kernel),
    (hpair _ _ _ (by decide +kernel)).mpr (by decide +kernel), fun hsame => ?_, fun hsame => ?_⟩
  · exact absurd ((hpair _ _ _ (by decide +kernel)).mp hsame) (by decide +kernel)
  · exact absurd (hall.mp hsame) (by decide +kernel)

/-- Items that refer to the alias of their IDs twice, first by its key. -/
def itemIds (reference : String) : Catalogue where
  languages := none
  aliases := [("ItemId", ⟨"integer", ""⟩)]
  types :=
    [("Item", .mk "" (.record
        [("id", [.always (.named "ItemId")]),
         ("parent", [.always (.named reference)])])
      [])]
  endpoints := []
  auxiliary := []

/-- An alias is found by its key only: the items load if they refer to it by the key both times,
and do not load if they use another spelling of the name the second time. -/
theorem key_unknown_respelled :
    (itemIds "ItemId").definition.isOk = true ∧
    (itemIds "item_id").definition = .error (.unknownType "item_id" "Item") ∧
    ¬∀ (c : Catalogue) scope a b, Respelled a b → SameMeaning (ofCatalogue c) scope a b := by
  refine ⟨by decide +kernel, rfl, fun hall => ?_⟩
  have hkey : (ofCatalogue (itemIds "ItemId")).named ["Item"] "ItemId" =
      .ok (.alias (.alias (Name.derive "item_id"))) := by decide +kernel
  have hrespelled : (ofCatalogue (itemIds "ItemId")).named ["Item"] "item_id" =
      .error (.unknownType "item_id" "Item") := by decide +kernel
  cases hall (itemIds "ItemId") ["Item"] "ItemId" "item_id" (by decide +kernel) with
  | «alias» n _ right => simp [hrespelled] at right
  | declaration n _ right => simp [hrespelled] at right
  | unknown left _ => simp [hkey] at left

end Catalogue.References

end ApiChronicle
