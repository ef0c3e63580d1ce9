import ApiChronicle.Catalogue.References
import Mathlib.Data.List.Basic

/-! # ApiChronicle.Proofs.SeparableNames

**Names that can be read off their text.**

The text of a name is its words run together, each with a capital first letter. A word that
opens with a digit leaves no trace of where it begins, so `item_2` and `Item2` are two names
with one text. A name is *separable* if each of its words after the first opens with a
capital and no word has another one. Then the capitals show where the words begin and the
text gives the name back (`Name.eq_of_text_eq`). In ASCII this is so unless the spelling has
a digit at its start or right behind a separator (`Name.isSeparable_derive`).

The text of a qualified name is a dotted path. If the names on the path are separable, the
text gives the path back, and with it the qualified name up to its kind
(`QualifiedName.eq_or_twin_of_text_eq`).
-/

namespace ApiChronicle

/-! ### Words run together -/

namespace Name

/-- The capital of a character, if it is a single character that the small letter can be
read off, and no dot. -/
def capital? (c : Char) : Option Char :=
  match toUppercase c with
  | [upper] => if toLowercase upper = [c] ∧ upper ≠ '.' then some upper else none
  | _ => none

/-- Whether a word has a capital for its first character, and neither capitals nor dots
behind it. -/
def isPlain (word : String) : Bool :=
  match word.toList with
  | [] => false
  | c :: rest => (capital? c).isSome && rest.all fun x => !isUppercase x && x != '.'

/-- Whether a word shows by a capital where it begins. -/
def opensLarge (word : String) : Bool := ((capitalize word).toList.head?).any isUppercase

/-- Whether the words of a list can be told apart when they are run together. -/
def areSeparable (words : List String) : Bool := words.all isPlain && words.tail.all opensLarge

/-- Whether the words of a name can be told apart in its text. -/
def isSeparable (n : Name) : Bool := areSeparable n.words

variable {c c' C : Char} {word : String} {words words' : List String}

theorem capital?_eq_some_iff :
    capital? c = some C ↔ toUppercase c = [C] ∧ toLowercase C = [c] ∧ C ≠ '.' := by
  unfold capital?
  split
  · next upper hupper =>
    rw [hupper]
    constructor
    · intro h
      split at h
      · next hback =>
        obtain rfl := Option.some.inj h
        exact ⟨rfl, hback⟩
      · cases h
    · intro h
      obtain ⟨hC, hback⟩ := h
      obtain rfl := List.singleton_inj.mp hC
      rw [if_pos hback]
  · next hother =>
    simp only [reduceCtorEq, false_iff]
    exact fun h => hother C h.1

theorem capital?_inj (h : capital? c = some C) (h' : capital? c' = some C) : c = c' :=
  List.singleton_inj.mp
    ((capital?_eq_some_iff.mp h).2.1.symm.trans (capital?_eq_some_iff.mp h').2.1)

/-- A plain word is its first character and small ones, and its capitalized form differs in
the first only. -/
theorem exists_capital_of_isPlain (h : isPlain word = true) :
    ∃ c C rest, word.toList = c :: rest ∧ (capitalize word).toList = C :: rest ∧
      capital? c = some C ∧ ∀ x ∈ rest, isUppercase x = false ∧ x ≠ '.' := by
  unfold isPlain at h
  split at h
  · cases h
  next c rest hword =>
  obtain ⟨hcapital, hrest⟩ := Bool.and_eq_true_iff.mp h
  obtain ⟨C, hC⟩ := Option.isSome_iff_exists.mp hcapital
  refine ⟨c, C, rest, hword, ?_, hC, fun x hx => ?_⟩
  · simp [capitalize, hword, (capital?_eq_some_iff.mp hC).1]
  · simpa using List.all_eq_true.mp hrest x hx

theorem areSeparable_cons_iff :
    areSeparable (word :: words) = true ↔
      isPlain word = true ∧ ∀ w ∈ words, isPlain w = true ∧ opensLarge w = true := by
  simp only [areSeparable, List.all_cons, List.tail_cons, Bool.and_eq_true, List.all_eq_true,
    and_assoc, forall_and]

theorem areSeparable_of_forall (h : ∀ w ∈ words, isPlain w = true ∧ opensLarge w = true) :
    areSeparable words = true := by
  refine Bool.and_eq_true_iff.mpr ⟨List.all_eq_true.mpr fun w hw => (h w hw).1, ?_⟩
  exact List.all_eq_true.mpr fun w hw => (h w (List.mem_of_mem_tail hw)).2

/-- What follows a word when it is run together with others opens with a capital. -/
theorem isUppercase_head_of_opensLarge
    (h : ∀ w ∈ words, isPlain w = true ∧ opensLarge w = true) :
    ∀ x ∈ (words.flatMap fun w => (capitalize w).toList).head?, isUppercase x = true := by
  cases words with
  | nil => simp
  | cons w rest =>
      obtain ⟨hplain, hlarge⟩ := h w List.mem_cons_self
      obtain ⟨c, C, tail, -, hC, -, -⟩ := exists_capital_of_isPlain hplain
      rw [opensLarge, hC] at hlarge
      simpa [hC] using hlarge

/-- Small characters end at the next capital. -/
theorem takeWhile_small {small more : List Char}
    (hsmall : ∀ x ∈ small, isUppercase x = false ∧ x ≠ '.')
    (hmore : ∀ x ∈ more.head?, isUppercase x = true) :
    (small ++ more).takeWhile (fun x => !isUppercase x) = small := by
  rw [List.takeWhile_append_of_pos fun x hx => by simp [(hsmall x hx).1]]
  cases more with
  | nil => simp
  | cons x more => simp [hmore x rfl]

/-- Separable words are given back by the text in which they are run together. -/
theorem eq_of_flatMap_capitalize (h : areSeparable words = true) (h' : areSeparable words' = true)
    (heq : (words.flatMap fun w => (capitalize w).toList) =
      words'.flatMap fun w => (capitalize w).toList) : words = words' := by
  induction words generalizing words' with
  | nil =>
      cases words' with
      | nil => rfl
      | cons w rest =>
          obtain ⟨c, C, tail, -, hC, -⟩ := exists_capital_of_isPlain (areSeparable_cons_iff.mp h').1
          simp [hC] at heq
  | cons w rest ih =>
      obtain ⟨hplain, hrest⟩ := areSeparable_cons_iff.mp h
      obtain ⟨c, C, tail, hw, hC, hcapital, hsmall⟩ := exists_capital_of_isPlain hplain
      cases words' with
      | nil => simp [hC] at heq
      | cons w' rest' =>
          obtain ⟨hplain', hrest'⟩ := areSeparable_cons_iff.mp h'
          obtain ⟨c', C', tail', hw', hC', hcapital', hsmall'⟩ := exists_capital_of_isPlain hplain'
          simp only [List.flatMap_cons, hC, hC', List.cons_append] at heq
          obtain ⟨rfl, hbehind⟩ := List.cons.inj heq
          -- both texts show where the first word ends
          have htail : tail = tail' := by
            rw [← takeWhile_small hsmall (isUppercase_head_of_opensLarge hrest), hbehind,
              takeWhile_small hsmall' (isUppercase_head_of_opensLarge hrest')]
          subst htail
          have hword : w = w' := by
            rw [← String.toList_inj, hw, hw', capital?_inj hcapital hcapital']
          rw [hword, ih (areSeparable_of_forall hrest) (areSeparable_of_forall hrest')
            (List.append_cancel_left hbehind)]

/-! ### Spellings with separable words -/

/-- Whether a word opens with a letter of ASCII and goes on with letters and digits of
ASCII, all small. -/
def isSimple : List Char → Bool
  | [] => false
  | c :: rest => c.isLower && rest.all fun x => x.isLower || x.isDigit

/-- Whether a spelling that goes on after `prev` is ASCII and has its digits right behind
letters or other digits. -/
def hasDigitsInside (prev : Char) : List Char → Bool
  | [] => true
  | c :: rest =>
    decide (c.toNat < 128) && (!c.isDigit || isAlphanumeric prev) && hasDigitsInside c rest

/-- What holds of the characters of ASCII is decided by looking at them. -/
theorem forall_ascii {P : Char → Prop} (h : ∀ code < 128, P (Char.ofNat code))
    (hc : c.toNat < 128) : P c := by
  rw [← Char.ofNat_toNat c]
  exact h c.toNat hc

theorem toNat_lt_of_isLower_or_isDigit (h : (c.isLower || c.isDigit) = true) : c.toNat < 128 := by
  have hlast : ∀ last : Char, last.toNat < 128 → decide (c.val ≤ last.val) = true → c.toNat < 128 :=
    fun last hlt hle =>
      Nat.lt_of_le_of_lt (UInt32.le_iff_toNat_le.mp (of_decide_eq_true hle)) hlt
  rcases Bool.or_eq_true_iff.mp h with h | h
  · exact hlast 'z' (by decide) (Bool.and_eq_true_iff.mp h).2
  · exact hlast '9' (by decide) (Bool.and_eq_true_iff.mp h).2

/-- A small letter of ASCII has a capital. -/
theorem exists_capital_of_isLower (h : c.isLower = true) :
    ∃ C, capital? c = some C ∧ isUppercase C = true := by
  have hany : c.isLower = true → (capital? c).any isUppercase = true :=
    forall_ascii (P := fun c => c.isLower = true → (capital? c).any isUppercase = true)
      (by decide +kernel) (toNat_lt_of_isLower_or_isDigit (by simp [h]))
  exact (Option.any_eq_true ..).mp (hany h)

/-- Small letters and digits of ASCII are neither capitals nor dots. -/
theorem isSmall_of_isLower_or_isDigit (h : (c.isLower || c.isDigit) = true) :
    (!isUppercase c && c != '.') = true :=
  forall_ascii (P := fun c => (c.isLower || c.isDigit) = true →
    (!isUppercase c && c != '.') = true) (by decide +kernel) (toNat_lt_of_isLower_or_isDigit h) h

/-- The small form of a letter or digit of ASCII is a letter, or it is the digit itself. -/
theorem toLowercase_of_isAlphanumeric (hc : c.toNat < 128) (h : isAlphanumeric c = true) :
    ∃ x, toLowercase c = [x] ∧ (x.isLower || x.isDigit) = true ∧
      (c.isDigit = false → x.isLower = true) := by
  have hlower : toLowercase c = [c.toLower] := by simp [toLowercase, hc]
  refine ⟨c.toLower, hlower, ?_, ?_⟩
  · exact forall_ascii (P := fun c => isAlphanumeric c = true →
      (c.toLower.isLower || c.toLower.isDigit) = true) (by decide +kernel) hc h
  · exact forall_ascii (P := fun c => isAlphanumeric c = true → c.isDigit = false →
      c.toLower.isLower = true) (by decide +kernel) hc h

/-- A simple word is plain, and a capital shows where it begins. -/
theorem opensLarge_of_isSimple (h : isSimple word.toList = true) :
    isPlain word = true ∧ opensLarge word = true := by
  cases hword : word.toList with
  | nil =>
      rw [hword] at h
      cases h
  | cons c rest =>
      rw [hword] at h
      obtain ⟨hc, hrest⟩ := Bool.and_eq_true_iff.mp h
      obtain ⟨C, hC, hupper⟩ := exists_capital_of_isLower hc
      constructor
      · simp only [isPlain, hword, hC, Option.isSome_some, Bool.true_and]
        exact List.all_eq_true.mpr fun x hx =>
          isSmall_of_isLower_or_isDigit (List.all_eq_true.mp hrest x hx)
      · simp [opensLarge, capitalize, hword, (capital?_eq_some_iff.mp hC).1, hupper]

theorem isSimple_concat {collected : List Char} (h : isSimple collected = true)
    (hc : (c.isLower || c.isDigit) = true) : isSimple (collected ++ [c]) = true := by
  cases collected with
  | nil => cases h
  | cons first rest =>
      obtain ⟨hfirst, hrest⟩ := Bool.and_eq_true_iff.mp h
      simp [isSimple, hfirst, hrest, hc]

theorem isSimple_of_mem_flush {collected : List Char}
    (h : collected = [] ∨ isSimple collected = true) :
    ∀ w ∈ flush collected, isSimple w.toList = true := by
  intro w hw
  unfold flush at hw
  split at hw
  · cases hw
  next hne =>
  obtain rfl := List.mem_singleton.mp hw
  rw [String.toList_ofList]
  exact h.resolve_left fun hnil => hne (by rw [hnil]; rfl)

/-- The words that are split off are simple as long as the unfinished word is, and it is
unfinished whenever a digit may follow. -/
theorem isSimple_of_mem_split {prev : Char} {collected rest : List Char}
    (hcollected : collected = [] ∨ isSimple collected = true)
    (hprev : isAlphanumeric prev = true → collected ≠ [])
    (hrest : hasDigitsInside prev rest = true) :
    ∀ w ∈ split prev collected rest, isSimple w.toList = true := by
  induction rest generalizing prev collected with
  | nil => exact isSimple_of_mem_flush hcollected
  | cons c rest ih =>
      simp only [hasDigitsInside, Bool.and_eq_true, decide_eq_true_eq, Bool.or_eq_true,
        Bool.not_eq_true'] at hrest
      obtain ⟨⟨hascii, hdigit⟩, hrest⟩ := hrest
      intro w hw
      rw [Name.split] at hw
      split at hw
      · next hseparator =>
        rcases List.mem_append.mp hw with hw | hw
        · exact isSimple_of_mem_flush hcollected w hw
        · exact ih (Or.inl rfl) (fun h => by simp [h] at hseparator) hrest w hw
      next hletter =>
      obtain ⟨x, hx, hsmall, hlower⟩ :=
        toLowercase_of_isAlphanumeric hascii (by simpa using hletter)
      rw [hx] at hw
      split at hw
      · next hopens =>
        -- a capital is no digit, so the new word opens with a letter
        have hupper := (Bool.and_eq_true_iff.mp (Bool.and_eq_true_iff.mp hopens).2).1
        have hnodigit : c.isDigit = false := forall_ascii
          (P := fun c => isUppercase c = true → c.isDigit = false) (by decide +kernel) hascii hupper
        rcases List.mem_append.mp hw with hw | hw
        · exact isSimple_of_mem_flush hcollected w hw
        · exact ih (Or.inr (by simp [isSimple, hlower hnodigit])) (fun _ => by simp) hrest w hw
      · refine ih (Or.inr ?_) (fun _ => by simp) hrest w hw
        rcases hcollected with rfl | hcollected
        · -- a digit that opened the word would stand behind a separator
          have hnodigit := hdigit.resolve_right fun h => hprev h rfl
          simp [isSimple, hlower hnodigit]
        · exact isSimple_concat hcollected hsmall

/-- A spelling in ASCII is that of a separable name, unless it has a digit at its start or
right behind a separator. -/
theorem isSeparable_derive {spelling : String} (h : hasDigitsInside ' ' spelling.toList = true) :
    (derive spelling).isSeparable = true :=
  areSeparable_of_forall fun w hw => opensLarge_of_isSimple
    (isSimple_of_mem_split (Or.inl rfl) (fun hspace => absurd hspace (by decide +kernel)) h w hw)

example : (derive "guildUpgrade2_ID").isSeparable = true := isSeparable_derive (by decide +kernel)

example : (derive "item_2").isSeparable = false := by decide +kernel

/-! ### Texts of names -/

theorem toList_text (n : Name) :
    n.text.toList = n.words.flatMap fun w => (capitalize w).toList := by
  simp [text, titleCase, List.flatMap_def, Function.comp_def]

/-- The text of a separable name gives the name back. -/
theorem eq_of_text_eq {n m : Name} (hn : n.isSeparable = true) (hm : m.isSeparable = true)
    (h : n.text = m.text) : n = m := by
  have hwords : n.words = m.words :=
    eq_of_flatMap_capitalize hn hm (by rw [← toList_text, ← toList_text, h])
  cases n
  cases m
  exact congrArg mk hwords

theorem map_text_inj {l l' : List Name} (h : ∀ n ∈ l, n.isSeparable = true)
    (h' : ∀ n ∈ l', n.isSeparable = true) (heq : l.map text = l'.map text) : l = l' := by
  induction l generalizing l' with
  | nil => exact (List.map_eq_nil_iff.mp heq.symm).symm
  | cons n rest ih =>
      obtain ⟨m, rest', rfl, htext, hrest⟩ := List.map_eq_cons_iff.mp heq.symm
      obtain ⟨hn, hns⟩ := List.forall_mem_cons.mp h
      obtain ⟨hm, hms⟩ := List.forall_mem_cons.mp h'
      rw [eq_of_text_eq hn hm htext.symm, ih hns hms hrest.symm]

theorem dot_not_mem_text {n : Name} (h : n.isSeparable = true) : '.' ∉ n.text.toList := by
  rw [toList_text]
  intro hdot
  obtain ⟨w, hw, hdot⟩ := List.mem_flatMap.mp hdot
  have hplain := List.all_eq_true.mp (Bool.and_eq_true_iff.mp h).1 w hw
  obtain ⟨c, C, rest, -, hC, hcapital, hsmall⟩ := exists_capital_of_isPlain hplain
  rw [hC] at hdot
  rcases List.mem_cons.mp hdot with rfl | hdot
  · exact (capital?_eq_some_iff.mp hcapital).2.2 rfl
  · exact (hsmall _ hdot).2 rfl

end Name

/-! ### Paths of names -/

theorem Catalogue.References.splitAtDots_eq_splitOn (text : List Char) :
    splitAtDots text = text.splitOn '.' := by
  induction text with
  | nil => rfl
  | cons c rest ih =>
      rw [splitAtDots, ih, List.splitOn_cons_eq_if_modifyHead]
      by_cases hc : c = '.'
      · simp [hc]
      · obtain ⟨part, parts, hrest⟩ := List.exists_cons_of_ne_nil (List.splitOn_ne_nil '.' rest)
        simp [hc, hrest]

namespace QualifiedName

open Catalogue.References (splitAtDots segments)

variable {a b : QualifiedName}

/-- The names on the way to a declaration, and its own. -/
def path (q : QualifiedName) : List Name := q.nest ++ [q.name]

/-- Whether the words of every name on the path can be told apart. -/
def isSeparable (q : QualifiedName) : Bool := q.path.all Name.isSeparable

/-- Texts without dots are given back by the text in which dots separate them. -/
theorem splitAtDots_joined (nest : List Name) (name : Name)
    (h : ∀ n ∈ nest ++ [name], '.' ∉ n.text.toList) :
    splitAtDots ((nest.flatMap fun n => n.text.toList ++ ['.']) ++ name.text.toList) =
      (nest ++ [name]).map fun n => n.text.toList := by
  rw [Catalogue.References.splitAtDots_eq_splitOn]
  induction nest with
  | nil => simpa using List.splitOn_eq_singleton (h name List.mem_cons_self)
  | cons n rest ih =>
      obtain ⟨hn, hrest⟩ := List.forall_mem_cons.mp h
      simp [List.splitOn_append_cons_self_of_not_mem hn, ih hrest]

/-- The text of a separable name is a dotted path of the texts on its path. -/
theorem segments_text (h : a.isSeparable = true) : segments a.text = a.path.map Name.text := by
  have htext : a.text.toList =
      (a.nest.flatMap fun n => n.text.toList ++ ['.']) ++ a.name.text.toList := by
    simp [text, List.flatMap_def, Function.comp_def]
  have hdots : ∀ n ∈ a.path, '.' ∉ n.text.toList := fun n hn =>
    Name.dot_not_mem_text (List.all_eq_true.mp h n hn)
  rw [segments, htext, splitAtDots_joined a.nest a.name hdots]
  simp [path, Function.comp_def]

/-- Names of one path differ in their kind at most. -/
theorem eq_or_twin_of_path_eq (h : a.path = b.path) : a = b ∨ a.twin? = some b := by
  obtain ⟨hnest, hname⟩ := List.append_inj' h rfl
  have hname := List.singleton_inj.mp hname
  cases a with
  | «alias» n =>
      cases b with
      | «alias» m => exact Or.inl (congrArg QualifiedName.alias hname)
      | declaration nest m =>
          obtain rfl : [] = nest := hnest
          obtain rfl : n = m := hname
          exact Or.inr rfl
  | declaration nest n =>
      cases b with
      | «alias» m =>
          obtain rfl : nest = [] := hnest
          obtain rfl : n = m := hname
          exact Or.inr rfl
      | declaration nest' m =>
          obtain rfl : nest = nest' := hnest
          obtain rfl : n = m := hname
          exact Or.inl rfl

/-- Separable names of one text are equal, or an alias and a top-level declaration of one
name. -/
theorem eq_or_twin_of_text_eq (ha : a.isSeparable = true) (hb : b.isSeparable = true)
    (h : a.text = b.text) : a = b ∨ a.twin? = some b := by
  refine eq_or_twin_of_path_eq ?_
  have htexts : a.path.map Name.text = b.path.map Name.text := by
    rw [← segments_text ha, ← segments_text hb, h]
  exact Name.map_text_inj (List.all_eq_true.mp ha) (List.all_eq_true.mp hb) htexts

theorem twin?_comm : a.twin? = some b ↔ b.twin? = some a := by
  rcases a with n | ⟨_ | ⟨_, _⟩, n⟩ <;> rcases b with m | ⟨_ | ⟨_, _⟩, m⟩ <;>
    simp [twin?, eq_comm]

theorem twin?_ne_self : a.twin? ≠ some a := by
  rcases a with n | ⟨_ | ⟨_, _⟩, n⟩ <;> simp [twin?]

end QualifiedName

end ApiChronicle
