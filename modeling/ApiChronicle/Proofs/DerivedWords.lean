import ApiChronicle.Proofs.SeparableNames
import ApiChronicle.Scope

/-! # ApiChronicle.Proofs.DerivedWords

**What becomes of a spelling.**

The words that are read from a spelling, run together, are its letters and numbers in small
letters: wherever the scan splits, a word leaves with exactly the letters that were collected
for it (`flatMap_toList_split`).

A part of a spelling is read as one word if the scan goes on from each of its characters to the
next (`goesOn`). Whether a capital opens a word depends on the character before and on the one
behind, so the judgement takes the character that follows the part. Parts that go on, with
separators between them, are read one word each (`split_joined`). The words of a spelling in
ASCII have small letters and digits only, and no such character opens a word. Their snake case
is thus read as the same words again, and with it the serial name a property gets by default.
-/

namespace ApiChronicle

namespace Name

variable {prev sep c : Char} {next? : Option Char} {word body rest : List Char}

/-! ### What a scan keeps -/

theorem flatMap_toList_flush (word : List Char) : (flush word).flatMap String.toList = word := by
  cases word with
  | nil => rfl
  | cons c rest => simp [flush]

theorem ne_empty_of_mem_flush : ∀ w ∈ flush word, w ≠ "" := by
  cases word with
  | nil => simp [flush]
  | cons c rest => simp [flush, ← String.toList_eq_nil_iff]

/-- No letter of a spelling is lost or moved, whatever the splits. -/
theorem flatMap_toList_split (prev : Char) (word rest : List Char) :
    (split prev word rest).flatMap String.toList =
      word ++ (rest.filter isAlphanumeric).flatMap toLowercase := by
  induction rest generalizing prev word with
  | nil => simp [split, flatMap_toList_flush]
  | cons c rest ih =>
      rw [split]
      split
      · next hseparator =>
        rw [List.filter_cons_of_neg (by simpa using hseparator), List.flatMap_append,
          flatMap_toList_flush, ih, List.nil_append]
      next hletter =>
      rw [List.filter_cons_of_pos (by simpa using hletter), List.flatMap_cons]
      split
      · rw [List.flatMap_append, flatMap_toList_flush, ih]
      · rw [ih, List.append_assoc]

theorem ne_empty_of_mem_split : ∀ w ∈ split prev word rest, w ≠ "" := by
  induction rest generalizing prev word with
  | nil => exact ne_empty_of_mem_flush
  | cons c rest ih =>
      rw [split]
      split
      · exact List.forall_mem_append.mpr ⟨ne_empty_of_mem_flush, ih⟩
      split
      · exact List.forall_mem_append.mpr ⟨ne_empty_of_mem_flush, ih⟩
      · exact ih

/-- The characters of a word are small forms of letters in the spelling. -/
theorem exists_of_mem_derive {spelling w : String} (hw : w ∈ (derive spelling).words) {x : Char}
    (hx : x ∈ w.toList) :
    ∃ c ∈ spelling.toList, isAlphanumeric c = true ∧ x ∈ toLowercase c := by
  have hmem : x ∈ (derive spelling).words.flatMap String.toList :=
    List.mem_flatMap.mpr ⟨w, hw, hx⟩
  rw [derive, flatMap_toList_split, List.nil_append] at hmem
  obtain ⟨c, hc, hxc⟩ := List.mem_flatMap.mp hmem
  obtain ⟨hc, halpha⟩ := List.mem_filter.mp hc
  exact ⟨c, hc, halpha, hxc⟩

/-! ### Parts that are read as one word -/

/-- Whether a scan goes on with its word from `prev` through `body` when `next?` follows. -/
def goesOn (prev : Char) (next? : Option Char) : List Char → Bool
  | [] => true
  | c :: rest =>
    isAlphanumeric c && !opensWord prev c (rest.head?.or next?) && goesOn c next? rest

/-- Whether a part is read as one word when `next?` follows. -/
def isOneWord (next? : Option Char) : List Char → Bool
  | [] => false
  | c :: rest => isAlphanumeric c && goesOn c next? rest

/-- The part `body` of a spelling is read as `word` when `next?` follows. -/
structure Spells (next? : Option Char) (body : List Char) (word : String) : Prop where
  ne_empty : word ≠ ""
  oneWord : isOneWord next? body = true
  lowercase : body.flatMap toLowercase = word.toList

theorem flush_toList {w : String} (h : w ≠ "") : flush w.toList = [w] := by
  simp [flush, h]

/-- A separator ends the word before it. -/
theorem split_separator {w : String} (hw : w ≠ "") (hsep : isAlphanumeric sep = false) :
    split prev w.toList (sep :: rest) = w :: split sep [] rest := by
  rw [split, if_pos (by simp [hsep]), flush_toList hw, List.singleton_append]

/-- So does a capital that opens a word. -/
theorem split_opensWord {w : String} (hw : w ≠ "") (hc : isAlphanumeric c = true)
    (hopens : opensWord prev c rest.head? = true) :
    split prev w.toList (c :: rest) = w :: split prev [] (c :: rest) := by
  rw [split, if_neg (by simp [hc]), if_pos (by simp [hw, hopens]), flush_toList hw,
    List.singleton_append, split, if_neg (by simp [hc]), if_neg (by simp), List.nil_append]

/-- A part that goes on is added to the word before it. -/
theorem split_append_of_goesOn {more : List Char} (h : goesOn prev more.head? body = true) :
    split prev word (body ++ more) =
      split (body.getLastD prev) (word ++ body.flatMap toLowercase) more := by
  induction body generalizing prev word with
  | nil => simp
  | cons c rest ih =>
      simp only [goesOn, Bool.and_eq_true, Bool.not_eq_true'] at h
      obtain ⟨⟨hc, hopens⟩, hrest⟩ := h
      rw [List.cons_append, split, if_neg (by simp [hc]),
        if_neg (by simp [List.head?_append, hopens]), ih hrest, List.getLastD_cons,
        List.flatMap_cons, List.append_assoc]

theorem split_append_of_spells {more : List Char} {w : String} (h : Spells more.head? body w) :
    split prev [] (body ++ more) = split (body.getLastD prev) w.toList more := by
  have hone := h.oneWord
  rw [← h.lowercase]
  cases body with
  | nil => cases hone
  | cons c rest =>
      obtain ⟨hc, hrest⟩ := Bool.and_eq_true_iff.mp hone
      rw [List.cons_append, split, if_neg (by simp [hc]), if_neg (by simp), List.nil_append,
        split_append_of_goesOn hrest, List.getLastD_cons, List.flatMap_cons]

theorem split_of_spells {w : String} (h : Spells none body w) : split prev [] body = [w] := by
  have hend : split prev [] (body ++ []) = split (body.getLastD prev) w.toList [] :=
    split_append_of_spells h
  rwa [List.append_nil, split, flush_toList h.ne_empty] at hend

/-- Words with separators between them are read one by one. -/
theorem split_joined {words : List String} {spell : String → List Char}
    (hsep : isAlphanumeric sep = false)
    (h : ∀ w ∈ words, ∀ next?, next? = none ∨ next? = some sep → Spells next? (spell w) w) :
    split prev [] ([sep].intercalate (words.map spell)) = words := by
  induction words generalizing prev with
  | nil => rfl
  | cons w words ih =>
      obtain ⟨hw, hwords⟩ := List.forall_mem_cons.mp h
      cases words with
      | nil => simpa using split_of_spells (hw none (Or.inl rfl))
      | cons w' words =>
          rw [List.map_cons, List.map_cons, List.intercalate_cons_cons, List.append_assoc,
            List.singleton_append, split_append_of_spells (hw _ (Or.inr rfl)),
            split_separator (hw _ (Or.inr rfl)).ne_empty hsep, ← List.map_cons, ih hwords]

/-! ### Words in small letters -/

/-- Small letters and digits of ASCII are read as they are. -/
theorem isAlphanumeric_of_isLower_or_isDigit (h : (c.isLower || c.isDigit) = true) :
    isAlphanumeric c = true ∧ isUppercase c = false ∧ toLowercase c = [c] :=
  forall_ascii (P := fun c => (c.isLower || c.isDigit) = true →
    isAlphanumeric c = true ∧ isUppercase c = false ∧ toLowercase c = [c])
    (by decide +kernel) (toNat_lt_of_isLower_or_isDigit h) h

/-- Small letters and digits open no word. -/
theorem goesOn_of_isLower_or_isDigit (h : ∀ x ∈ body, (x.isLower || x.isDigit) = true) :
    goesOn prev next? body = true := by
  induction body generalizing prev with
  | nil => rfl
  | cons c rest ih =>
      obtain ⟨hc, hrest⟩ := List.forall_mem_cons.mp h
      obtain ⟨halpha, hcapital, -⟩ := isAlphanumeric_of_isLower_or_isDigit hc
      simp [goesOn, opensWord, halpha, hcapital, ih hrest]

theorem flatMap_toLowercase (h : ∀ x ∈ body, (x.isLower || x.isDigit) = true) :
    body.flatMap toLowercase = body := by
  rw [List.flatMap_congr fun x hx => (isAlphanumeric_of_isLower_or_isDigit (h x hx)).2.2,
    List.flatMap_singleton']

/-- A word in small letters spells itself. -/
theorem spells_toList {w : String} (hne : w ≠ "")
    (h : ∀ x ∈ w.toList, (x.isLower || x.isDigit) = true) : Spells next? w.toList w := by
  refine ⟨hne, ?_, flatMap_toLowercase h⟩
  cases hw : w.toList with
  | nil => exact absurd (String.toList_eq_nil_iff.mp hw) hne
  | cons c rest =>
      rw [hw] at h
      obtain ⟨hc, hrest⟩ := List.forall_mem_cons.mp h
      exact Bool.and_eq_true_iff.mpr
        ⟨(isAlphanumeric_of_isLower_or_isDigit hc).1, goesOn_of_isLower_or_isDigit hrest⟩

/-- Words in small letters are read from their snake case, or from any other spelling in which a
separator stands between them. -/
theorem derive_intercalate (sep : Char) {separator : String} {words : List String}
    (hseparator : separator.toList = [sep]) (hsep : isAlphanumeric sep = false)
    (hne : ∀ w ∈ words, w ≠ "")
    (h : ∀ w ∈ words, ∀ x ∈ w.toList, (x.isLower || x.isDigit) = true) :
    derive (separator.intercalate words) = ⟨words⟩ := by
  rw [derive, String.toList_intercalate, hseparator]
  exact congrArg mk (split_joined hsep fun w hw _ _ => spells_toList (hne w hw) (h w hw))

/-- Whether a spelling has characters of ASCII only. -/
def isAscii (spelling : String) : Bool := spelling.toList.all fun c => c.toNat < 128

/-- The words of a spelling in ASCII have small letters and digits only. -/
theorem isLower_or_isDigit_of_mem_derive {spelling w : String}
    (hascii : isAscii spelling = true) (hw : w ∈ (derive spelling).words) :
    ∀ x ∈ w.toList, (x.isLower || x.isDigit) = true := by
  intro x hx
  obtain ⟨c, hc, halpha, hxc⟩ := exists_of_mem_derive hw hx
  have hcode : c.toNat < 128 := of_decide_eq_true (List.all_eq_true.mp hascii c hc)
  obtain ⟨y, hy, hsmall, -⟩ := toLowercase_of_isAlphanumeric hcode halpha
  rw [hy] at hxc
  obtain rfl := List.mem_singleton.mp hxc
  exact hsmall

/-- The name that is read from a spelling in ASCII is read from its snake case again. -/
theorem derive_snakeCase_derive {spelling : String}
    (hascii : isAscii spelling = true) :
    derive (derive spelling).snakeCase = derive spelling :=
  derive_intercalate '_' (by decide) (by decide +kernel)
    (fun _ hw => ne_empty_of_mem_split _ hw)
    fun _ hw => isLower_or_isDigit_of_mem_derive hascii hw

/-- The words of a spelling are not empty and have, run together, all its letters and numbers in
small letters and in the order of the spelling. In ASCII the name is read again from its snake
case, and so is the name of a property from its default serial name. -/
theorem derived_words_keep_letters (spelling : String) :
    (∀ w ∈ (derive spelling).words, w ≠ "") ∧
    String.join (derive spelling).words =
      String.ofList ((spelling.toList.filter isAlphanumeric).flatMap toLowercase) ∧
    (isAscii spelling = true →
      derive (derive spelling).snakeCase = derive spelling ∧
      ∀ type description,
        derive (Property.make spelling type description).member.serialName =
          (Property.make spelling type description).member.name) := by
  refine ⟨fun _ hw => ne_empty_of_mem_split _ hw, ?_, fun hascii => ?_⟩
  · have hletters := flatMap_toList_split ' ' [] spelling.toList
    rw [List.nil_append] at hletters
    rw [← String.toList_inj, String.toList_join, String.toList_ofList, ← hletters, derive]
  · exact ⟨derive_snakeCase_derive hascii, fun _ _ => derive_snakeCase_derive hascii⟩

/-- An acronym, a version number and a separator. -/
theorem derived_words_keep_letters_server :
    (derive "HTTPServer_v2").words = ["http", "server", "v2"] ∧
    String.join (derive "HTTPServer_v2").words = "httpserverv2" ∧
    derive (derive "HTTPServer_v2").snakeCase = derive "HTTPServer_v2" ∧
    derive (Property.make "HTTPServer_v2" (.primitive .string) "").member.serialName =
      derive "HTTPServer_v2" := by
  obtain ⟨-, hjoin, hascii⟩ := derived_words_keep_letters "HTTPServer_v2"
  obtain ⟨hsnake, hserial⟩ := hascii (by decide +kernel)
  exact ⟨by decide +kernel, hjoin.trans (by decide +kernel), hsnake, hserial _ _⟩

end Name

end ApiChronicle
