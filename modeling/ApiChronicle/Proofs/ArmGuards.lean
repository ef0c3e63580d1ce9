import ApiChronicle.Discriminator
import ApiChronicle.Proofs.SchemaAcceptance
import ApiChronicle.Proofs.Snapshots

/-! # ApiChronicle.Proofs.ArmGuards

**The guards of an exported conditional** beside the interpretation that a payload follows.

Which arm applies is decided twice. `select` takes the discriminator of a payload for a text and
looks it up; the guard of an exported arm compares the discriminator itself with the key. Where
the discriminator is a text the two agree (`guards_agree_on_texts`). Interpretations are listed
under their keys (`isKeyed_of_declareConditional`), and each key once, so the arms exclude each
other and `oneOf` asks for the arm of the selected interpretation (`accepts_choice_iff`).

Numbers and truth values select like their texts, but no guard accepts them
(`number_selects_unguarded`). An enumeration of integers lists integers where its texts are some;
guards always ask for a text.
-/

namespace ApiChronicle

open JsonSchema (Reading accepts)

namespace ConditionalShape

variable {reading : Reading} {c : Conditional} {i j : Interpretation}

/-- Interpretations are listed under their own keys. -/
def IsKeyed (c : Conditional) : Prop := ∀ e ∈ c.interpretations.entries, e.2.key = e.1

instance (c : Conditional) : Decidable c.IsKeyed :=
  inferInstanceAs (Decidable (∀ e ∈ c.interpretations.entries, e.2.key = e.1))

/-- The discriminator of a payload is a text. -/
def SelectsByText (c : Conditional) (payload : Json) : Prop :=
  ∃ s, payload.member? c.selector = some (.string s)

theorem IsKeyed.key_eq (h : c.IsKeyed) {key : String} (hi : c.interpretations.get? key = some i) :
    i.key = key :=
  h _ (SortedMap.get?_eq_some_iff.mp hi)

theorem IsKeyed.get?_key (h : c.IsKeyed) (hi : i ∈ c.interpretations.values) :
    c.interpretations.get? i.key = some i := by
  obtain ⟨key, hkey⟩ := SortedMap.mem_values_iff.mp hi
  rw [h.key_eq hkey, hkey]

/-- The listed interpretations have different keys. -/
theorem IsKeyed.pairwise_key_ne (h : c.IsKeyed) :
    c.interpretations.values.Pairwise fun i j => i.key ≠ j.key := by
  refine List.pairwise_map.mpr (c.interpretations.sorted.imp_of_mem ?_)
  intro a b ha hb hlt heq
  have hkeys : a.1 = b.1 := by rw [← h a ha, ← h b hb, heq]
  have hself : compare a.1 b.1 = .eq := hkeys ▸ Std.ReflCmp.compare_self
  exact absurd (hself.symm.trans hlt) (by decide)

/-- A conditional that is put together from dated members is keyed in each of its runs. -/
theorem isKeyed_of_conditionalIn {name : QualifiedName} {selector : Selector}
    {shared : List (Dated Property)} {arms : List (Dated Interpretation)} {description : String}
    {run : Run} {d : Declaration}
    (h : Scope.conditionalIn name selector shared arms description run = .ok d) :
    ∃ c : Conditional, Shape.resolved d = .conditional c ∧ c.IsKeyed := by
  obtain ⟨liveShared, liveArms, -, harms, rfl⟩ := Scope.conditionalIn_eq_ok h
  refine ⟨_, rfl, fun e he => ?_⟩
  obtain ⟨⟨key, arm⟩, harm, rfl⟩ := List.mem_map.mp he
  obtain ⟨member, -, hkey, rfl⟩ :=
    (Scope.get?_of_membersOf harms).mp (SortedMap.get?_eq_some_iff.mpr harm)
  exact hkey

/-- So every declared conditional is keyed at every version it exists at. -/
theorem isKeyed_of_declareConditional {s : Scope} {r r' : Registry} {spelling : String}
    {selector : Selector} {shared : List (Dated Property)} {arms : List (Dated Interpretation)}
    {description : String} {use : TypeUse}
    (h : (s.declareConditional spelling selector shared arms description).run r = .ok use r')
    {history : History} (hget : r'.get? (s.qualify spelling) = some history) {v : Version}
    {d : Declaration} (hd : history.at? v = some d) :
    ∃ c : Conditional, Shape.resolved d = .conditional c ∧ c.IsKeyed := by
  obtain ⟨sharedWindows, armWindows, made, -, -, hmade, hinsert, -⟩ :=
    Scope.declareConditional_eq_ok h
  rw [Registry.get?_of_insert hinsert, if_pos rfl] at hget
  obtain rfl := Option.some.inj hget
  obtain ⟨run, -, -, hdeclare⟩ := (Scope.at?_of_historyOf (successive_liveRuns _) hmade).mp hd
  exact isKeyed_of_conditionalIn hdeclare

/-! ### What selects and what is guarded -/

/-- A discriminator in the object selects what its text stands for. -/
theorem select_eq_ok_iff (hinside : c.selectorInSideProperty = false) {payload : Json}
    {side : Option String} :
    c.select payload side = .ok i ↔
      ∃ text, (payload.member? c.selector).bind Json.selectorText? = some text ∧
        c.interpretations.get? text = some i := by
  have hdiscriminator : c.discriminator? payload side =
      (payload.member? c.selector).bind Json.selectorText? := by
    simp [discriminator?, hinside]
  rw [select, hdiscriminator]
  cases (payload.member? c.selector).bind Json.selectorText? with
  | none => simp
  | some text => cases hget : c.interpretations.get? text <;> simp [hget]

/-- A text selects the interpretation of its key. -/
theorem select_eq_ok_iff_of_text (hinside : c.selectorInSideProperty = false) {payload : Json}
    {side : Option String} {s : String} (hs : payload.member? c.selector = some (.string s)) :
    c.select payload side = .ok i ↔ c.interpretations.get? s = some i := by
  simp [select_eq_ok_iff hinside, hs, Json.selectorText?]

/-- A guard accepts the objects whose discriminator is the text of the key. -/
theorem accepts_guard_iff {members : List (String × Json)} :
    accepts reading (c.guard i) (.object members) = true ↔
      (Json.object members).member? c.selector = some (.string i.key) := by
  simp only [accepts, guard, JsonSchema.meets, JsonSchema.Keyword.accepts,
    JsonSchema.meetsMembers, List.all_cons, List.all_nil, Bool.and_true, Bool.and_eq_true]
  cases (Json.object members).member? c.selector with
  | none => simp
  | some value => cases value <;> simp [Json.isText]

/-- A guard accepts the objects that select its interpretation by a text. -/
theorem accepts_guard_iff_select (hinside : c.selectorInSideProperty = false) (hkeyed : c.IsKeyed)
    (hi : i ∈ c.interpretations.values) {members : List (String × Json)} :
    accepts reading (c.guard i) (.object members) = true ↔
      c.select (.object members) none = .ok i ∧ c.SelectsByText (.object members) := by
  rw [accepts_guard_iff]
  constructor
  · intro hkey
    exact ⟨(select_eq_ok_iff_of_text hinside hkey).mpr (hkeyed.get?_key hi), i.key, hkey⟩
  · rintro ⟨hselect, s, hs⟩
    have hget := (select_eq_ok_iff_of_text hinside hs).mp hselect
    rw [hs, hkeyed.key_eq hget]

/-- The guards of two arms exclude each other. -/
theorem guards_exclusive (reading : Reading) (hkeyed : c.IsKeyed)
    (members : List (String × Json)) :
    c.interpretations.values.Pairwise fun i j =>
      ¬ (accepts reading (c.guard i) (.object members) = true ∧
        accepts reading (c.guard j) (.object members) = true) := by
  refine hkeyed.pairwise_key_ne.imp fun {i j} hne ⟨hi, hj⟩ => hne ?_
  rw [accepts_guard_iff] at hi hj
  simpa [hi] using hj

/-- No guard accepts what selects nothing, nor what does not select by a text. -/
theorem guards_reject_iff (hinside : c.selectorInSideProperty = false) (hkeyed : c.IsKeyed)
    {members : List (String × Json)} :
    (∀ i ∈ c.interpretations.values, accepts reading (c.guard i) (.object members) = false) ↔
      (∃ e, c.select (.object members) none = .error e) ∨
        ¬ c.SelectsByText (.object members) := by
  constructor
  · intro hreject
    by_cases htext : c.SelectsByText (.object members)
    · cases hselect : c.select (.object members) none with
      | error e => exact Or.inl ⟨e, rfl⟩
      | ok i =>
        obtain ⟨key, -, hget⟩ := (select_eq_ok_iff hinside).mp hselect
        have hi := SortedMap.mem_values_iff.mpr ⟨key, hget⟩
        have haccepts : accepts reading (c.guard i) (.object members) = true :=
          (accepts_guard_iff_select hinside hkeyed hi).mpr ⟨hselect, htext⟩
        exact absurd haccepts (by simp [hreject i hi])
    · exact Or.inr htext
  · intro h i hi
    refine Bool.eq_false_iff.mpr fun haccepts => ?_
    obtain ⟨hselect, htext⟩ := (accepts_guard_iff_select hinside hkeyed hi).mp haccepts
    rcases h with ⟨e, he⟩ | hnot
    · rw [he] at hselect
      cases hselect
    · exact hnot htext

/-! ### The choice among the arms -/

/-- An arm accepts what its guard and its body accept. -/
theorem accepts_arm_iff (hinside : c.selectorInSideProperty = false) {v : Json} :
    accepts reading (c.arm i) v = true ↔
      accepts reading (c.guard i) v = true ∧ accepts reading (c.armBody i) v = true := by
  simp [arm, hinside, JsonSchema.accepts_allOf]

/-- The choice accepts the objects that select an interpretation by a text and fit its body. -/
theorem accepts_choice_iff (hinside : c.selectorInSideProperty = false) (hkeyed : c.IsKeyed)
    {members : List (String × Json)} :
    accepts reading c.choice (.object members) = true ↔
      ∃ i, c.select (.object members) none = .ok i ∧ c.SelectsByText (.object members) ∧
        accepts reading (c.armBody i) (.object members) = true := by
  have hexclusive : (c.interpretations.values.map c.arm).Pairwise fun schema other =>
      ¬ (accepts reading schema (.object members) = true ∧
        accepts reading other (.object members) = true) := by
    refine List.pairwise_map.mpr ((guards_exclusive reading hkeyed members).imp ?_)
    intro i j hnot ⟨hi, hj⟩
    exact hnot ⟨((accepts_arm_iff hinside).mp hi).1, ((accepts_arm_iff hinside).mp hj).1⟩
  have hchoice : c.choice = [.oneOf (c.interpretations.values.map c.arm)] := by
    simp [choice, hinside]
  rw [hchoice, JsonSchema.accepts_oneOf_of_exclusive hexclusive, JsonSchema.accepts_anyOf]
  constructor
  · rintro ⟨schema, hschema, haccepts⟩
    obtain ⟨i, hi, rfl⟩ := List.mem_map.mp hschema
    obtain ⟨hguard, hbody⟩ := (accepts_arm_iff hinside).mp haccepts
    obtain ⟨hselect, htext⟩ := (accepts_guard_iff_select hinside hkeyed hi).mp hguard
    exact ⟨i, hselect, htext, hbody⟩
  · rintro ⟨i, hselect, htext, hbody⟩
    obtain ⟨key, -, hget⟩ := (select_eq_ok_iff hinside).mp hselect
    have hi := SortedMap.mem_values_iff.mpr ⟨key, hget⟩
    exact ⟨c.arm i, List.mem_map_of_mem hi, (accepts_arm_iff hinside).mpr
      ⟨(accepts_guard_iff_select hinside hkeyed hi).mpr ⟨hselect, htext⟩, hbody⟩⟩

/-! ### Guards and selection -/

/-- **Exported guards and selection agree on texts.** For every object a guard accepts exactly
when the interpretation of its arm is selected and the discriminator is a text; at most one of
them accepts; and none does exactly when nothing is selected or the discriminator is no text.
So the exported choice accepts the objects that select an interpretation by a text and fit its
body. -/
theorem guards_agree_on_texts (reading : Reading) (c : Conditional)
    (hinside : c.selectorInSideProperty = false) (hkeyed : c.IsKeyed)
    (members : List (String × Json)) :
    (∀ i ∈ c.interpretations.values,
      accepts reading (c.guard i) (.object members) = true ↔
        c.select (.object members) none = .ok i ∧ c.SelectsByText (.object members)) ∧
    (c.interpretations.values.Pairwise fun i j =>
      ¬ (accepts reading (c.guard i) (.object members) = true ∧
        accepts reading (c.guard j) (.object members) = true)) ∧
    ((∀ i ∈ c.interpretations.values, accepts reading (c.guard i) (.object members) = false) ↔
      (∃ e, c.select (.object members) none = .error e) ∨
        ¬ c.SelectsByText (.object members)) ∧
    (accepts reading c.choice (.object members) = true ↔
      ∃ i, c.select (.object members) none = .ok i ∧ c.SelectsByText (.object members) ∧
        accepts reading (c.armBody i) (.object members) = true) :=
  ⟨fun _ hi => accepts_guard_iff_select hinside hkeyed hi, guards_exclusive reading hkeyed members,
    guards_reject_iff hinside hkeyed, accepts_choice_iff hinside hkeyed⟩

/-- Interpretations whose keys are the texts of numbers. -/
def slots : Conditional where
  name := .declaration [] (Name.derive "Slot")
  selector := "slot"
  selectorInSideProperty := false
  interpretationInNestedProperty := false
  sharedProperties := .empty
  interpretations := .ofList
    [("1", ⟨"1", none, .declaration (.declaration [] (Name.derive "Helmet")), "", false⟩),
      ("2", ⟨"2", none, .declaration (.declaration [] (Name.derive "Sword")), "", false⟩)]
  description := ""

theorem guards_agree_on_texts_slots :
    slots.selectorInSideProperty = false ∧ slots.IsKeyed ∧
    ∀ reading : Reading,
      (∀ i ∈ slots.interpretations.values,
        accepts reading (slots.guard i) (.object [("slot", .string "2")]) = true ↔
          slots.select (.object [("slot", .string "2")]) none = .ok i ∧
            slots.SelectsByText (.object [("slot", .string "2")])) ∧
      (slots.interpretations.values.Pairwise fun i j =>
        ¬ (accepts reading (slots.guard i) (.object [("slot", .string "2")]) = true ∧
          accepts reading (slots.guard j) (.object [("slot", .string "2")]) = true)) ∧
      ((∀ i ∈ slots.interpretations.values,
          accepts reading (slots.guard i) (.object [("slot", .string "2")]) = false) ↔
        (∃ e, slots.select (.object [("slot", .string "2")]) none = .error e) ∨
          ¬ slots.SelectsByText (.object [("slot", .string "2")])) ∧
      (accepts reading slots.choice (.object [("slot", .string "2")]) = true ↔
        ∃ i, slots.select (.object [("slot", .string "2")]) none = .ok i ∧
          slots.SelectsByText (.object [("slot", .string "2")]) ∧
          accepts reading (slots.armBody i) (.object [("slot", .string "2")]) = true) :=
  have hkeyed : slots.IsKeyed := by decide +kernel
  ⟨rfl, hkeyed, fun reading => guards_agree_on_texts reading slots rfl hkeyed _⟩

/-- A number selects the interpretation of its text, which no guard lets pass. -/
theorem number_selects_unguarded :
    slots.selectorInSideProperty = false ∧ slots.IsKeyed ∧
    ∃ i ∈ slots.interpretations.values,
      slots.select (.object [("slot", .int 1)]) none = .ok i ∧
        ∀ reading : Reading,
          accepts reading (slots.guard i) (.object [("slot", .int 1)]) = false := by
  have hkeyed : slots.IsKeyed := by decide +kernel
  have hget : ∃ i, slots.interpretations.get? "1" = some i :=
    Option.isSome_iff_exists.mp (by decide +kernel)
  obtain ⟨i, hi⟩ := hget
  refine ⟨rfl, hkeyed, i, SortedMap.mem_values_iff.mpr ⟨"1", hi⟩,
    (select_eq_ok_iff rfl).mpr ⟨"1", by decide +kernel, hi⟩, fun reading => ?_⟩
  refine Bool.eq_false_iff.mpr fun haccepts => ?_
  -- the guard asks for a text where there is a number
  have hmember : (Json.object [("slot", .int 1)]).member? slots.selector = some (.int 1) := rfl
  rw [accepts_guard_iff, hmember] at haccepts
  cases haccepts

end ConditionalShape

end ApiChronicle
