import ApiChronicle.Proofs.DerivedWords

/-! # ApiChronicle.Proofs.NameSpellings

**Spellings that give the name back.**

A *regular* word has one or more small letters of ASCII, then digits, if any, and two characters
at least. A name with regular words is read from its spelling in any of the usual styles
(`derive_write_of_isRegular`), so names that are written alike are equal.

In snake case and in kebab case separators show where the words end. Without separators a word is
ended by the capital of the next one, since it has a small letter or a digit before it
(`split_append_capitalized`); this takes the second character, because two capitals in a row stay
in one word. In capitals a digit would end a word if a letter followed, which is why the digits
come last (`goesOn_capitals`).
-/

namespace ApiChronicle

namespace Name

/-- How the words of a name are put together. -/
inductive CaseStyle
  /-- `ItemStat` -/
  | title
  /-- `itemStat` -/
  | camel
  /-- `item_stat` -/
  | snake
  /-- `ITEM_STAT` -/
  | screamingSnake
  /-- `item-stat` -/
  | kebab
  deriving DecidableEq, Repr

/-- The spelling of a name in a style. -/
def CaseStyle.write : CaseStyle → Name → String
  | .title, n => n.titleCase
  | .camel, n => n.camelCase
  | .snake, n => n.snakeCase
  | .screamingSnake, n => n.screamingSnakeCase
  | .kebab, n => "-".intercalate n.words

/-- Whether a word has small letters of ASCII, then digits, if any, and two characters at least. -/
def isRegularWord (word : String) : Bool :=
  decide (2 ≤ word.length) && word.toList.head?.any Char.isLower &&
    (word.toList.dropWhile Char.isLower).all Char.isDigit

/-- Whether all words of a name are regular. -/
def isRegular (n : Name) : Bool := n.words.all isRegularWord

/-- Whether a character is a capital letter, and neither a small one nor a number. -/
def isCapital (c : Char) : Bool :=
  isAlphanumeric c && isUppercase c && !isLowercase c && !isNumber c

/-- Whether a capital behind a part opens a word. -/
def endsSmall (body : List Char) : Bool :=
  body.getLast?.any fun c => isLowercase c || isNumber c

variable {prev c : Char} {next? : Option Char} {body rest : List Char} {w : String}
  {words : List String}

/-! ### Capitals and small letters -/

theorem isCapital_iff :
    isCapital c = true ↔
      isAlphanumeric c = true ∧ isUppercase c = true ∧ isLowercase c = false ∧
        isNumber c = false := by
  simp only [isCapital, Bool.and_eq_true, Bool.not_eq_true', and_assoc]

theorem isCapital_toUpper (h : c.isLower = true) :
    isCapital c.toUpper = true ∧ toUppercase c = [c.toUpper] ∧ toLowercase c.toUpper = [c] :=
  forall_ascii (P := fun c => c.isLower = true →
    isCapital c.toUpper = true ∧ toUppercase c = [c.toUpper] ∧ toLowercase c.toUpper = [c])
    (by decide +kernel) (toNat_lt_of_isLower_or_isDigit (by simp [h])) h

theorem toUppercase_of_isDigit (h : c.isDigit = true) :
    toUppercase c = [c] ∧ toLowercase c = [c] ∧ isLowercase c = false :=
  forall_ascii (P := fun c => c.isDigit = true →
    toUppercase c = [c] ∧ toLowercase c = [c] ∧ isLowercase c = false)
    (by decide +kernel) (toNat_lt_of_isLower_or_isDigit (by simp [h])) h

theorem isLowercase_or_isNumber (h : (c.isLower || c.isDigit) = true) :
    (isLowercase c || isNumber c) = true :=
  forall_ascii (P := fun c => (c.isLower || c.isDigit) = true →
    (isLowercase c || isNumber c) = true) (by decide +kernel) (toNat_lt_of_isLower_or_isDigit h) h

theorem opensWord_of_endsSmall (h : endsSmall body = true) (hc : isCapital c = true) :
    opensWord (body.getLastD prev) c next? = true := by
  obtain ⟨last, hlast, hsmall⟩ := (Option.any_eq_true ..).mp h
  obtain ⟨-, hupper, -, -⟩ := isCapital_iff.mp hc
  rw [List.getLastD_eq_getLast?, hlast, Option.getD_some, opensWord, hupper, Bool.true_and,
    hsmall, Bool.true_or]

theorem not_opensWord_of_isCapital (hprev : isCapital prev = true)
    (hnext : next?.any isLowercase = false) : opensWord prev c next? = false := by
  obtain ⟨-, -, hlower, hnumber⟩ := isCapital_iff.mp hprev
  simp [opensWord, hlower, hnumber, hnext]

/-! ### Regular words -/

theorem exists_of_isRegularWord (h : isRegularWord w = true) :
    ∃ c letters digits, w.toList = c :: (letters ++ digits) ∧ letters ++ digits ≠ [] ∧
      c.isLower = true ∧ (∀ x ∈ letters, x.isLower = true) ∧ ∀ x ∈ digits, x.isDigit = true := by
  obtain ⟨h, hdigits⟩ := Bool.and_eq_true_iff.mp h
  obtain ⟨hlength, hhead⟩ := Bool.and_eq_true_iff.mp h
  rw [← String.length_toList, decide_eq_true_eq] at hlength
  cases hw : w.toList with
  | nil => simp [hw] at hhead
  | cons c rest =>
      rw [hw] at hlength hhead hdigits
      have hc : c.isLower = true := hhead
      rw [List.dropWhile_cons_of_pos hc] at hdigits
      refine ⟨c, rest.takeWhile Char.isLower, rest.dropWhile Char.isLower, ?_, ?_, hc,
        fun x hx => List.all_eq_true.mp List.all_takeWhile x hx,
        fun x hx => List.all_eq_true.mp hdigits x hx⟩
      · rw [List.takeWhile_append_dropWhile]
      · rw [List.takeWhile_append_dropWhile]
        rintro rfl
        exact absurd hlength (Nat.not_le_of_lt (Nat.lt_succ_self 1))

theorem ne_empty_of_isRegularWord (h : isRegularWord w = true) : w ≠ "" := by
  rintro rfl
  exact absurd h (by decide +kernel)

theorem isLower_or_isDigit_of_isRegularWord (h : isRegularWord w = true) :
    ∀ x ∈ w.toList, (x.isLower || x.isDigit) = true := by
  obtain ⟨c, letters, digits, hw, -, hc, hletters, hdigits⟩ := exists_of_isRegularWord h
  rw [hw]
  refine List.forall_mem_cons.mpr ⟨by simp [hc], List.forall_mem_append.mpr ⟨?_, ?_⟩⟩
  · exact fun x hx => by simp [hletters x hx]
  · exact fun x hx => by simp [hdigits x hx]

/-- The first character does not matter if there is another one. -/
theorem endsSmall_cons (hne : rest ≠ []) (h : ∀ x ∈ rest, (x.isLower || x.isDigit) = true) :
    endsSmall (c :: rest) = true := by
  rw [endsSmall, List.getLast?_cons, List.getLast?_eq_some_getLast hne, Option.getD_some]
  exact isLowercase_or_isNumber (h _ (List.getLast_mem hne))

theorem endsSmall_toList (h : isRegularWord w = true) : endsSmall w.toList = true := by
  have hsmall := isLower_or_isDigit_of_isRegularWord h
  obtain ⟨c, letters, digits, hw, hne, -, -, -⟩ := exists_of_isRegularWord h
  rw [hw] at hsmall ⊢
  exact endsSmall_cons hne (List.forall_mem_cons.mp hsmall).2

/-- A regular word with a capital first letter opens with it, is read as the same word and ends
small. -/
theorem exists_capitalize (h : isRegularWord w = true) :
    ∃ C rest, (capitalize w).toList = C :: rest ∧ isCapital C = true ∧
      (∀ next?, Spells next? (C :: rest) w) ∧ endsSmall (C :: rest) = true := by
  have hsmall := isLower_or_isDigit_of_isRegularWord h
  obtain ⟨c, letters, digits, hw, hne, hc, -, -⟩ := exists_of_isRegularWord h
  obtain ⟨hcapital, hupper, hlower⟩ := isCapital_toUpper hc
  rw [hw] at hsmall
  obtain ⟨-, hsmall⟩ := List.forall_mem_cons.mp hsmall
  refine ⟨c.toUpper, letters ++ digits, ?_, hcapital, fun next? => ?_, endsSmall_cons hne hsmall⟩
  · rw [capitalize, hw, String.toList_ofList, hupper, List.singleton_append]
  · refine ⟨ne_empty_of_isRegularWord h, ?_, ?_⟩
    · rw [isOneWord, (isCapital_iff.mp hcapital).1, goesOn_of_isLower_or_isDigit hsmall,
        Bool.and_true]
    · rw [List.flatMap_cons, hlower, flatMap_toLowercase hsmall, hw, List.singleton_append]

/-! ### Words run together -/

/-- Capital first letters tell regular words apart behind a word that ends small. -/
theorem split_append_capitalized (hbody : ∀ next?, Spells next? body w)
    (hends : endsSmall body = true) (hwords : ∀ w ∈ words, isRegularWord w = true) :
    split prev [] (body ++ words.flatMap fun w => (capitalize w).toList) = w :: words := by
  induction words generalizing prev body w with
  | nil => simpa using split_of_spells (hbody none)
  | cons w' words ih =>
      obtain ⟨hw', hwords⟩ := List.forall_mem_cons.mp hwords
      obtain ⟨C, rest, hcapitalize, hC, hspells, hends'⟩ := exists_capitalize hw'
      rw [List.flatMap_cons, hcapitalize, split_append_of_spells (hbody _), List.cons_append,
        split_opensWord (hbody none).ne_empty (isCapital_iff.mp hC).1
          (opensWord_of_endsSmall hends hC),
        ← List.cons_append, ih hspells hends' hwords]

theorem derive_titleCase {n : Name} (h : ∀ w ∈ n.words, isRegularWord w = true) :
    derive n.titleCase = n := by
  have htext : n.titleCase.toList = n.words.flatMap fun w => (capitalize w).toList := toList_text n
  obtain ⟨words⟩ := n
  refine congrArg mk ?_
  rw [htext]
  cases words with
  | nil => rfl
  | cons w words =>
      obtain ⟨hw, hwords⟩ := List.forall_mem_cons.mp h
      obtain ⟨C, rest, hcapitalize, -, hspells, hends⟩ := exists_capitalize hw
      rw [List.flatMap_cons, hcapitalize]
      exact split_append_capitalized hspells hends hwords

theorem derive_camelCase {n : Name} (h : ∀ w ∈ n.words, isRegularWord w = true) :
    derive n.camelCase = n := by
  obtain ⟨words⟩ := n
  refine congrArg mk ?_
  cases words with
  | nil => rfl
  | cons w words =>
      obtain ⟨hw, hwords⟩ := List.forall_mem_cons.mp h
      have hspells (next? : Option Char) : Spells next? w.toList w :=
        spells_toList (ne_empty_of_isRegularWord hw) (isLower_or_isDigit_of_isRegularWord hw)
      have hletters : (camelCase ⟨w :: words⟩).toList =
          w.toList ++ words.flatMap fun w => (capitalize w).toList := by
        simp [camelCase, List.flatMap_def, Function.comp_def]
      rw [hletters]
      exact split_append_capitalized hspells (endsSmall_toList hw) hwords

/-! ### Words in capitals -/

/-- Capitals with digits behind them are one word, unless a small letter follows. -/
theorem goesOn_capitals {capitals digits : List Char} (hprev : isCapital prev = true)
    (hcapitals : ∀ x ∈ capitals, isCapital x = true)
    (hdigits : ∀ x ∈ digits, x.isDigit = true) (hnext : next?.any isLowercase = false) :
    goesOn prev next? (capitals ++ digits) = true := by
  induction capitals generalizing prev with
  | nil => exact goesOn_of_isLower_or_isDigit fun x hx => by simp [hdigits x hx]
  | cons c capitals ih =>
      obtain ⟨hc, hcapitals⟩ := List.forall_mem_cons.mp hcapitals
      have hbehind : ((capitals ++ digits).head?.or next?).any isLowercase = false := by
        cases capitals with
        | cons c' capitals => exact (isCapital_iff.mp (hcapitals c' List.mem_cons_self)).2.2.1
        | nil =>
            cases digits with
            | cons d digits => exact (toUppercase_of_isDigit (hdigits d List.mem_cons_self)).2.2
            | nil => exact hnext
      rw [List.cons_append, goesOn, (isCapital_iff.mp hc).1,
        not_opensWord_of_isCapital hprev hbehind, ih hc hcapitals]
      rfl

theorem flatMap_toUppercase_toLowercase (h : ∀ x ∈ body, (x.isLower || x.isDigit) = true) :
    (body.flatMap toUppercase).flatMap toLowercase = body := by
  have hback : ∀ x ∈ body, (toUppercase x).flatMap toLowercase = [x] := by
    intro x hx
    rcases Bool.or_eq_true_iff.mp (h x hx) with hletter | hdigit
    · obtain ⟨-, hupper, hlower⟩ := isCapital_toUpper hletter
      rw [hupper, List.flatMap_singleton, hlower]
    · obtain ⟨hupper, hlower, -⟩ := toUppercase_of_isDigit hdigit
      rw [hupper, List.flatMap_singleton, hlower]
  rw [List.flatMap_assoc, List.flatMap_congr hback, List.flatMap_singleton']

/-- A regular word in capitals is read as the same word, unless a small letter follows. -/
theorem spells_flatMap_toUppercase (h : isRegularWord w = true)
    (hnext : next?.any isLowercase = false) :
    Spells next? (w.toList.flatMap toUppercase) w := by
  refine ⟨ne_empty_of_isRegularWord h, ?_,
    flatMap_toUppercase_toLowercase (isLower_or_isDigit_of_isRegularWord h)⟩
  obtain ⟨c, letters, digits, hw, -, hc, hletters, hdigits⟩ := exists_of_isRegularWord h
  obtain ⟨hcapital, hupper, -⟩ := isCapital_toUpper hc
  have hcapitals : letters.flatMap toUppercase = letters.map Char.toUpper := by
    rw [List.flatMap_congr fun x hx => (isCapital_toUpper (hletters x hx)).2.1,
      ← List.map_eq_flatMap]
  have hsame : digits.flatMap toUppercase = digits := by
    rw [List.flatMap_congr fun x hx => (toUppercase_of_isDigit (hdigits x hx)).1,
      List.flatMap_singleton']
  rw [hw, List.flatMap_cons, List.flatMap_append, hupper, hcapitals, hsame,
    List.singleton_append, isOneWord, (isCapital_iff.mp hcapital).1, Bool.true_and]
  refine goesOn_capitals hcapital ?_ hdigits hnext
  exact List.forall_mem_map.mpr fun x hx => (isCapital_toUpper (hletters x hx)).1

theorem flatMap_intercalate (f : Char → List Char) (separator : List Char)
    (parts : List (List Char)) :
    (separator.intercalate parts).flatMap f =
      (separator.flatMap f).intercalate (parts.map fun part => part.flatMap f) := by
  induction parts with
  | nil => rfl
  | cons part parts ih =>
      cases parts with
      | nil => simp
      | cons part' parts =>
          rw [List.intercalate_cons_cons, List.flatMap_append, List.flatMap_append, ih,
            List.map_cons, List.map_cons, List.map_cons, List.intercalate_cons_cons]

theorem derive_screamingSnakeCase {n : Name} (h : ∀ w ∈ n.words, isRegularWord w = true) :
    derive n.screamingSnakeCase = n := by
  obtain ⟨words⟩ := n
  refine congrArg mk ?_
  have hseparator : "_".toList.flatMap toUppercase = ['_'] := by decide +kernel
  rw [screamingSnakeCase, String.toList_ofList, snakeCase, String.toList_intercalate,
    flatMap_intercalate, hseparator, List.map_map]
  refine split_joined (by decide +kernel) fun w hw next? hnext => ?_
  refine spells_flatMap_toUppercase (h w hw) ?_
  rcases hnext with rfl | rfl
  · rfl
  · decide +kernel

/-! ### All styles -/

/-- A name with regular words is read from its spelling in every style. -/
theorem derive_write {n : Name} (h : n.isRegular = true) (style : CaseStyle) :
    derive (style.write n) = n := by
  have hwords : ∀ w ∈ n.words, isRegularWord w = true := List.all_eq_true.mp h
  have hne : ∀ w ∈ n.words, w ≠ "" := fun w hw => ne_empty_of_isRegularWord (hwords w hw)
  have hsmall : ∀ w ∈ n.words, ∀ x ∈ w.toList, (x.isLower || x.isDigit) = true :=
    fun w hw => isLower_or_isDigit_of_isRegularWord (hwords w hw)
  cases style with
  | title => exact derive_titleCase hwords
  | camel => exact derive_camelCase hwords
  | snake => exact derive_intercalate '_' (by decide) (by decide +kernel) hne hsmall
  | screamingSnake => exact derive_screamingSnakeCase hwords
  | kebab => exact derive_intercalate '-' (by decide) (by decide +kernel) hne hsmall

/-- A name with regular words is read from its spelling in every style. Two such names that are
written alike, be it in one style, in two, or in messages, are therefore equal. -/
theorem derive_write_of_isRegular {n : Name} (hn : n.isRegular = true) :
    (∀ style : CaseStyle, derive (style.write n) = n) ∧
    ∀ m : Name, m.isRegular = true →
      (∀ style style' : CaseStyle, style.write n = style'.write m → n = m) ∧
      (n.text = m.text → n = m) := by
  refine ⟨derive_write hn, fun m hm => ?_⟩
  have hinj : ∀ style style' : CaseStyle, style.write n = style'.write m → n = m := by
    intro style style' heq
    calc n = derive (style.write n) := (derive_write hn style).symm
      _ = derive (style'.write m) := by rw [heq]
      _ = m := derive_write hm style'
  exact ⟨hinj, hinj .title .title⟩

/-- The five spellings of one name; another one is written otherwise. -/
theorem derive_write_of_isRegular_guild :
    isRegular ⟨["guild2", "upgrade", "id"]⟩ = true ∧
    [CaseStyle.title, .camel, .snake, .screamingSnake, .kebab].map
        (fun style => style.write ⟨["guild2", "upgrade", "id"]⟩) =
      ["Guild2UpgradeId", "guild2UpgradeId", "guild2_upgrade_id", "GUILD2_UPGRADE_ID",
        "guild2-upgrade-id"] ∧
    (∀ style : CaseStyle,
      derive (style.write ⟨["guild2", "upgrade", "id"]⟩) = ⟨["guild2", "upgrade", "id"]⟩) ∧
    text ⟨["guild2", "upgrade", "id"]⟩ ≠ text ⟨["guild2", "upgradeid"]⟩ := by
  have h := derive_write_of_isRegular (n := ⟨["guild2", "upgrade", "id"]⟩) (by decide +kernel)
  refine ⟨by decide +kernel, by decide +kernel, h.1, fun htext => ?_⟩
  have heq := (h.2 ⟨["guild2", "upgradeid"]⟩ (by decide +kernel)).2 htext
  exact absurd heq (by decide)

/-- Words of one letter are not told apart: in title case they look like an acronym. -/
example : derive (CaseStyle.title.write ⟨["a", "b"]⟩) = ⟨["ab"]⟩ := by decide +kernel

end Name

end ApiChronicle
