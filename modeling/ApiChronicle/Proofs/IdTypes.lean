import ApiChronicle.Proofs.BuildRoots
import ApiChronicle.Proofs.SchemaOverrides

/-! # ApiChronicle.Proofs.IdTypes

**The type of the IDs** of an index, and the version it is taken from.

The IDs of an index have the type of a property of its elements. Both the response that
names the elements and the declaration of its type change over time, so a version has to be
chosen for each. The response is the one that is served when the endpoint's window begins,
whatever overrides there are (`response_at_start`). The declaration is the original one
(`History.original`), which need not be the one that is in force by then: an endpoint that
comes later than its elements asks for them by IDs of a type that they had once
(`id_type_of_original`).
-/

namespace ApiChronicle

/-- The type of the member that a declaration has under a serial name. -/
def Declaration.memberType? (d : Declaration) (key : String) : Option TypeUse :=
  d.properties?.bind fun properties => (properties.get? key).map (·.member.type)

/-- The declaration that a history starts from: the classic one or, if there is none, the
earliest one. -/
def History.original (h : History) : Declaration := (h.at? .classic).getD h.first

theorem History.original_of_classic {h : History} {d : Declaration}
    (hd : h.at? .classic = some d) : h.original = d := by
  rw [original, hd]
  rfl

/-- A type that never changes is what it was. -/
theorem History.original_of_isConstant {h : History} {v : Version} {d : Declaration}
    (hconstant : h.isConstant = true) (hd : h.at? v = some d) : h.original = d := by
  cases h with
  | constant declaration => exact Option.some.inj hd
  | evolving timeline => cases hconstant

/-- Values of the type can identify elements. What an alias stands for is judged by its
earliest declaration. -/
inductive Registry.Identifies (r : Registry) : TypeUse → Prop
  | primitive {p} (identifier : p.isIdentifier = true) : Identifies r (.primitive p)
  | alias {name history shape} (registered : r.get? name = some history)
      (first : history.first = .alias shape) (identifier : shape.primitive.isIdentifier = true) :
      Identifies r (.alias name)

namespace Endpoint

variable {e : Endpoint} {r : Registry} {base : Query} {index : Index} {n : QualifiedName}
  {history : History} {key path : String} {type type' : TypeUse}

/-! ### The response -/

/-- **The response that names the elements is the one the endpoint starts with.** -/
theorem response_at_start (h : e.baseQuery = .ok base) :
    base.schema.at? e.since =
      some ((base.schema.at? .classic).getD base.schema.first.value) := by
  have hschema := (baseQuery_eq_ok h).2
  have hwindow := window_of_baseQuery h
  obtain ⟨l, whole, -, sorted, hwhole, hrestrict⟩ := schemaTimeline_eq_ok hschema
  have ht := Timeline.successive_of_spans sorted hwhole
  have hsince : base.schema.first.since = e.since := by
    have hspan := Timeline.span_restrict ht hrestrict
    exact congrArg Window.since (hspan.trans hwindow)
  have hfirst : base.schema.at? e.since = some base.schema.first.value :=
    hsince ▸ Timeline.at?_first (Timeline.successive_restrict ht hrestrict)
  cases hclassic : base.schema.at? .classic with
  | none => exact hfirst
  | some type =>
      -- a window that holds the classic version begins with it
      have hinside : base.window.contains .classic = true := by
        by_contra hout
        cases (Timeline.at?_restrict_outside ht hrestrict (Bool.eq_false_iff.mpr hout)).symm.trans
          hclassic
      have hle := (Window.contains_iff.mp hinside).1
      rw [hwindow] at hle
      have hsame : e.since = .classic := Version.rank_inj.mp (Nat.le_zero.mp hle)
      rw [hsame]
      exact hclassic

/-! ### The ID property -/

theorem checkIdType_eq_ok_iff :
    checkIdType r path key type = .ok type' ↔ type' = type ∧ r.Identifies type := by
  constructor
  · intro h
    obtain rfl := checkIdType_eq_ok h
    refine ⟨rfl, ?_⟩
    unfold checkIdType at h
    split at h
    · split at h
      · next hp => exact .primitive hp
      · cases h
    · next name =>
      split at h
      · next shape hshape =>
        split at h
        · next hp =>
          obtain ⟨history, hget, hfirst⟩ := Option.map_eq_some_iff.mp hshape
          exact .alias hget hfirst hp
        · cases h
      · cases h
    · cases h
  · intro h
    obtain ⟨rfl, hid⟩ := h
    cases hid with
    | primitive hp => exact if_pos hp
    | «alias» hget hfirst hp =>
        simp only [checkIdType, hget, Option.map_some, hfirst]
        exact if_pos hp

theorem checkIdType_ne_missingIdProperty :
    checkIdType r path key type ≠ .error (.missingIdProperty path key) := by
  intro h
  unfold checkIdType at h
  split at h
  · split at h <;> cases h
  · split at h
    · split at h <;> cases h
    · cases h
  · cases h

section Original

variable
  (hresponse : (base.schema.at? .classic).getD base.schema.first.value = .declaration n)
  (hget : r.get? n = some history)
include hresponse hget

/-- The type of the IDs is looked up in the original declaration of the elements. -/
theorem idType_eq_of_response :
    idType r base key = match history.original.properties? with
      | none => .error (.invalidIdSchema base.request.path history.original.kind.keyword)
      | some properties =>
        match properties.get? key with
        | none => .error (.missingIdProperty base.request.path key)
        | some p => checkIdType r base.request.path key p.member.type := by
  simp only [idType, hresponse, hget]
  rfl

theorem idType_of_memberType (h : history.original.memberType? key = some type) :
    idType r base key = checkIdType r base.request.path key type := by
  obtain ⟨properties, hproperties, hmember⟩ := Option.bind_eq_some_iff.mp h
  obtain ⟨p, hp, rfl⟩ := Option.map_eq_some_iff.mp hmember
  simp only [idType_eq_of_response hresponse hget, hproperties, hp]

/-- Without a member under the key there is no type of IDs, and none that could be wrong. -/
theorem idType_of_no_member (h : history.original.memberType? key = none) :
    ∃ fault, idType r base key = .error fault ∧
      ∀ path cause, fault ≠ .invalidIdType path key cause := by
  rw [idType_eq_of_response hresponse hget]
  cases hproperties : history.original.properties? with
  | none => exact ⟨_, rfl, nofun⟩
  | some properties =>
      have hkey : properties.get? key = none := by
        simpa [Declaration.memberType?, hproperties] using h
      simp only [hkey]
      exact ⟨_, rfl, nofun⟩

end Original

/-! ### The queries -/

theorem queries_eq_of_index (hbase : e.baseQuery = .ok base) (hindex : e.index = some index) :
    e.queries r = (idType r base index.idKey).map fun type =>
      index.queries.map (indexQuery base type) := by
  unfold queries
  rw [hbase, hindex]
  show (idType r base index.idKey >>= fun type =>
    pure (index.queries.map (indexQuery base type))) = _
  cases idType r base index.idKey <;> rfl

/-- The queries of an index go by a declaration of its elements. -/
structure TakesIdsFrom (e : Endpoint) (r : Registry) (index : Index) (d : Declaration) : Prop where
  /-- IDs have the type of the key. -/
  type : ∀ queries, e.queries r = .ok queries → ∀ q ∈ queries,
    q.request.details.map IndexDetails.idType = d.memberType? index.idKey
  /-- A key whose values can identify elements is accepted. -/
  accepted : ∀ type, d.memberType? index.idKey = some type → r.Identifies type →
    ∃ queries, e.queries r = .ok queries
  /-- The key is reported to be missing only where it is. -/
  missing : e.queries r = .error (.missingIdProperty e.path index.idKey) →
    d.memberType? index.idKey = none
  /-- The key is reported to be no identifier only where it is none. -/
  invalid : ∀ fault, e.queries r = .error (.invalidIdType e.path index.idKey fault) →
    ∃ type, d.memberType? index.idKey = some type ∧ ¬r.Identifies type

/-- Only the type of the key matters. -/
theorem TakesIdsFrom.congr {d d' : Declaration} (h : e.TakesIdsFrom r index d)
    (hsame : d.memberType? index.idKey = d'.memberType? index.idKey) :
    e.TakesIdsFrom r index d' where
  type := hsame ▸ h.type
  accepted := hsame ▸ h.accepted
  missing := hsame ▸ h.missing
  invalid := hsame ▸ h.invalid

/-- An index goes by the original declaration of the elements that its endpoint starts with. -/
theorem takesIdsFrom_original (hindex : e.index = some index) (hbase : e.baseQuery = .ok base)
    (hresponse : base.schema.at? e.since = some (.declaration n))
    (hget : r.get? n = some history) : e.TakesIdsFrom r index history.original := by
  have hstart : (base.schema.at? .classic).getD base.schema.first.value = .declaration n :=
    Option.some.inj ((response_at_start hbase).symm.trans hresponse)
  have hpath : base.request.path = e.path := by
    rw [(baseQuery_eq_ok hbase).1]
    rfl
  have hqueries := queries_eq_of_index (r := r) hbase hindex
  cases hmember : history.original.memberType? index.idKey with
  | none =>
      obtain ⟨fault, hfault, hvalid⟩ := idType_of_no_member hstart hget hmember
      rw [hfault] at hqueries
      refine ⟨fun queries h => ?_, fun type h => ?_, fun _ => hmember, fun cause h => ?_⟩
      · cases hqueries.symm.trans h
      · cases hmember.symm.trans h
      · exact absurd (Except.error.inj (hqueries.symm.trans h)) (hvalid _ _)
  | some type =>
      rw [idType_of_memberType hstart hget hmember, hpath] at hqueries
      by_cases hid : r.Identifies type
      · rw [checkIdType_eq_ok_iff.mpr ⟨rfl, hid⟩] at hqueries
        refine ⟨fun queries h q hq => ?_, fun _ _ _ => ⟨_, hqueries⟩, fun h => ?_,
          fun cause h => ?_⟩
        · obtain rfl := Except.ok.inj (hqueries.symm.trans h)
          obtain ⟨query, -, rfl⟩ := List.mem_map.mp hq
          exact hmember.symm
        · cases hqueries.symm.trans h
        · cases hqueries.symm.trans h
      · cases hcheck : checkIdType r e.path index.idKey type with
        | ok type' => exact absurd (checkIdType_eq_ok_iff.mp hcheck).2 hid
        | error fault =>
            rw [hcheck] at hqueries
            refine ⟨fun queries h => ?_, fun type' h hid' => ?_, fun h => ?_,
              fun _ _ => ⟨type, hmember, hid⟩⟩
            · cases hqueries.symm.trans h
            · obtain rfl := Option.some.inj (hmember.symm.trans h)
              exact absurd hid' hid
            · obtain rfl := Except.error.inj (hqueries.symm.trans h)
              exact absurd hcheck checkIdType_ne_missingIdProperty

/-- **The IDs of an index have the type they had originally.** An index goes by the original
declaration of the elements that its endpoint starts with. It goes by the declaration that is
in force at that start if the endpoint starts with the classic version, if the elements never
change, or if the two declarations say the same of the key. -/
theorem id_type_of_original {d : Declaration} (hindex : e.index = some index)
    (hbase : e.baseQuery = .ok base) (hresponse : base.schema.at? e.since = some (.declaration n))
    (hget : r.get? n = some history) (hd : history.at? e.since = some d) :
    e.TakesIdsFrom r index history.original ∧
    (e.since = .classic ∨ history.isConstant = true ∨
      history.original.memberType? index.idKey = d.memberType? index.idKey →
      e.TakesIdsFrom r index d) := by
  have horiginal := takesIdsFrom_original hindex hbase hresponse hget
  refine ⟨horiginal, fun h => horiginal.congr ?_⟩
  rcases h with hclassic | hconstant | hsame
  · rw [hclassic] at hd
    rw [History.original_of_classic hd]
  · rw [History.original_of_isConstant hconstant hd]
  · exact hsame

/-! ### Coins -/

def coin : QualifiedName := .declaration [] ⟨["coin"]⟩

/-- A coin with an ID of a type, and with more properties. -/
def coinShape (id : TypeUse) (more : List (String × Dated Property)) : Declaration :=
  .record ⟨coin, .ofList (("id", NodeTree.property "id" id) :: more), ""⟩

/-- Coins that are declared anew at one version. -/
def coins (before after : Declaration) : Registry :=
  ⟨.ofList [(coin, .evolving
    ⟨⟨before, .classic, some .dated20190516⟩, [⟨after, .dated20190516, none⟩]⟩)], .empty⟩

/-- An index of coins that is offered from the new declaration on. -/
def lateCoins : Endpoint :=
  { make "Coins" "/coins" with
    since := .dated20190516
    schemas := [(.classic, .declaration coin)]
    index := some ⟨"id", [.ids, .byId]⟩ }

theorem exists_baseQuery_lateCoins :
    ∃ base, lateCoins.baseQuery = .ok base ∧
      base.schema.at? .dated20190516 = some (.declaration coin) := by
  obtain ⟨base, hbase⟩ := Except.isOk_iff_exists.mp
    (show lateCoins.baseQuery.isOk = true by decide +kernel)
  refine ⟨base, hbase, (at?_baseQuery hbase).mpr ⟨by decide, .classic, Or.inl ?_⟩⟩
  exact ⟨by decide, by decide, by decide⟩

/-- Coins that only get a name keep their IDs. -/
theorem id_type_of_original_named :
    ∃ queries, lateCoins.queries (coins (coinShape (.primitive .integer) [])
        (coinShape (.primitive .integer) [("name", NodeTree.property "name" (.primitive .string))]))
        = .ok queries ∧
      ∀ q ∈ queries, q.request.details.map IndexDetails.idType = some (.primitive .integer) := by
  obtain ⟨base, hbase, hresponse⟩ := exists_baseQuery_lateCoins
  obtain ⟨-, h⟩ := id_type_of_original (r := coins (coinShape (.primitive .integer) [])
    (coinShape (.primitive .integer) [("name", NodeTree.property "name" (.primitive .string))]))
    rfl hbase hresponse rfl rfl
  have hids := h (Or.inr (Or.inr (by decide)))
  obtain ⟨queries, hqueries⟩ := hids.accepted (.primitive .integer) (by decide) (.primitive rfl)
  exact ⟨queries, hqueries, fun q hq => (hids.type queries hqueries q hq).trans (by decide)⟩

/-- Coins that have numbers as IDs at first and texts later. -/
def reissued : Registry :=
  coins (coinShape (.primitive .integer) []) (coinShape (.primitive .string) [])

/-- An index that starts when its elements have texts as IDs asks for them by numbers. -/
theorem asked_for_by_former_ids :
    ∃ base queries, lateCoins.baseQuery = .ok base ∧
      base.schema.at? lateCoins.since = some (.declaration coin) ∧
      (reissued.get? coin).bind (·.at? lateCoins.since) =
        some (coinShape (.primitive .string) []) ∧
      (coinShape (.primitive .string) []).memberType? "id" = some (.primitive .string) ∧
      lateCoins.queries reissued = .ok queries ∧
      ∃ q ∈ queries, q.request.details.map IndexDetails.idType = some (.primitive .integer) := by
  obtain ⟨base, hbase, hresponse⟩ := exists_baseQuery_lateCoins
  have hids := takesIdsFrom_original (r := reissued) rfl hbase hresponse rfl
  obtain ⟨queries, hqueries⟩ := hids.accepted (.primitive .integer) (by decide) (.primitive rfl)
  refine ⟨base, queries, hbase, hresponse, by decide, by decide, hqueries, ?_⟩
  obtain ⟨base, type, -, -, rfl⟩ := queries_eq_ok_of_index rfl hqueries
  exact ⟨_, List.mem_cons_self, (hids.type _ hqueries _ List.mem_cons_self).trans (by decide)⟩

end Endpoint

end ApiChronicle
