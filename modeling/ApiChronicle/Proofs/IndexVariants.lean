import ApiChronicle.Proofs.BuildRoots

/-! # ApiChronicle.Proofs.IndexVariants

**The queries of an index** as variants of one query.

An endpoint with an index offers one query for each way to ask the index. Each is the query
that the endpoint would offer without its index, apart from what belongs to the way of asking:
the suffix, the parameters that name the wanted elements, and the type of the answer
(`Query.IsVariant`). A declared parameter under a key that belongs to the way of asking gives
way; every other one stays. Windows and stretches of versions are those of the plain query,
so a variant exists, and is resolved to nothing, exactly where the plain query is
(`queries_are_variants`).
-/

namespace ApiChronicle

/-! ### Ways to ask -/

namespace IndexQuery

/-- The parameters that name the wanted elements, given the type of IDs. Only the size of a page
may be left out. -/
inductive AsksBy (idType : TypeUse) : IndexQuery → QueryParameter → Prop
  | id : AsksBy idType .byId
      { key := "id", type := idType, name := ⟨["id"]⟩, isOptional := false
        description := "The ID of the requested element." }
  | ids : AsksBy idType (.byIds false)
      { key := "ids", type := .array idType false, name := ⟨["ids"]⟩, isOptional := false
        description := "The IDs of the requested elements." }
  | idsOrAll : AsksBy idType (.byIds true)
      { key := "ids", type := .array idType false, name := ⟨["ids"]⟩, isOptional := false
        description := "The IDs of the requested elements, or \"all\" to request every element." }
  | page : AsksBy idType .byPage
      { key := "page", type := .primitive .integer, name := ⟨["page"]⟩, isOptional := false
        description := "The index of the requested page." }
  | pageSize : AsksBy idType .byPage
      { key := "page_size", type := .primitive .integer, name := ⟨["page", "size"]⟩
        isOptional := true, description := "The size of the requested page." }

/-- What asking an index answers with, given the type of IDs and the answer of the plain
query. -/
inductive Answers (idType element : TypeUse) : IndexQuery → TypeUse → Prop
  | ids : Answers idType element .ids (.arrayOf idType)
  | byId : Answers idType element .byId element
  | byIds {supportsAll} : Answers idType element (.byIds supportsAll) (.arrayOf element)
  | byPage : Answers idType element .byPage (.arrayOf element)

theorem answers_indexSchema (kind : IndexQuery) (idType element : TypeUse) :
    kind.Answers idType element (Endpoint.indexSchema idType kind element) := by
  cases kind with
  | ids => exact .ids
  | byId => exact .byId
  | byIds supportsAll => exact .byIds
  | byPage => exact .byPage

theorem asksBy_iff {kind : IndexQuery} {idType : TypeUse} {x : QueryParameter} :
    kind.AsksBy idType x ↔ x ∈ Endpoint.indexParameters idType kind := by
  have hid : Name.derive "id" = ⟨["id"]⟩ := by decide +kernel
  have hids : Name.derive "ids" = ⟨["ids"]⟩ := by decide +kernel
  have hpage : Name.derive "page" = ⟨["page"]⟩ := by decide +kernel
  have hsize : Name.derive "page_size" = ⟨["page", "size"]⟩ := by decide +kernel
  constructor
  · intro h
    cases h with
    | id => simp [Endpoint.indexParameters, QueryParameter.make, hid]
    | ids => simp [Endpoint.indexParameters, QueryParameter.make, hids, TypeUse.arrayOf]
    | idsOrAll =>
        simp only [Endpoint.indexParameters, QueryParameter.make, hids, List.mem_singleton]
        rfl
    | page => simp [Endpoint.indexParameters, QueryParameter.make, hpage]
    | pageSize => simp [Endpoint.indexParameters, QueryParameter.make, hpage, hsize]
  · intro h
    cases kind with
    | ids => cases h
    | byId =>
        simp only [Endpoint.indexParameters, QueryParameter.make, hid, List.mem_singleton] at h
        exact h ▸ .id
    | byIds supportsAll =>
        simp only [Endpoint.indexParameters, QueryParameter.make, hids, List.mem_singleton] at h
        cases supportsAll with
        | false => exact h ▸ .ids
        | true => exact h ▸ .idsOrAll
    | byPage =>
        simp only [Endpoint.indexParameters, QueryParameter.make, hpage, hsize, List.mem_cons,
          List.not_mem_nil, or_false] at h
        rcases h with rfl | rfl
        · exact .page
        · exact .pageSize

theorem nodup_keys_indexParameters (kind : IndexQuery) (idType : TypeUse) :
    ((Endpoint.indexParameters idType kind).map (·.key)).Nodup := by
  cases kind <;> simp [Endpoint.indexParameters, QueryParameter.make]

end IndexQuery

/-! ### Variants -/

namespace Query

variable {q base : Query} {kind : IndexQuery} {idType : TypeUse} {r : Registry} {v : Version}
  {p p' : Pass}

/-- What the resolution of a query answers: its form at the version, or nothing if it does
not exist there. -/
def answer (q : Query) (r : Registry) (v : Version) (p : Pass) :
    Except ResolveError (Option ResolvedQuery) :=
  (q.resolve r v p).result.map fun _ => q.at? v

/-- The query is a plain query made into a way to ask an index. -/
structure IsVariant (q : Query) (kind : IndexQuery) (idType : TypeUse) (base : Query) :
    Prop where
  path : q.request.path = base.request.path
  endpoint : q.request.endpoint = base.request.endpoint
  summary : q.request.summary = base.request.summary
  window : q.window = base.window
  cacheSeconds : q.request.cacheSeconds = base.request.cacheSeconds
  security : q.request.security = base.request.security
  isLocalized : q.request.isLocalized = base.request.isLocalized
  pathParameters : q.request.pathParameters = base.request.pathParameters
  suffix : q.request.suffix = some kind.suffix
  details : q.request.details = some ⟨kind, idType⟩
  /-- The parameters that name the wanted elements are there. -/
  ownParameters : ∀ x, kind.AsksBy idType x → q.request.queryParameters.get? x.key = some x
  /-- Under other keys there is what the plain query has. -/
  otherParameters : ∀ key, (∀ x, kind.AsksBy idType x → x.key ≠ key) →
    q.request.queryParameters.get? key = base.request.queryParameters.get? key
  /-- Both have a type of the answer at the same versions. -/
  schema : ∀ v, Option.Rel (kind.Answers idType) (base.schema.at? v) (q.schema.at? v)

/-- Resolution answers with the query at the version, if it answers. -/
theorem at?_of_answer {answer : Option ResolvedQuery} (h : q.answer r v p = .ok answer) :
    q.at? v = answer := by
  unfold Query.answer at h
  cases hresult : (q.resolve r v p).result with
  | error e =>
      rw [hresult] at h
      cases h
  | ok u =>
      rw [hresult] at h
      exact Except.ok.inj h

/-- It answers nothing just where the query does not exist. -/
theorem answer_eq_ok_none_iff : q.answer r v p = .ok none ↔ q.at? v = none := by
  constructor
  · exact at?_of_answer
  · intro h
    unfold answer resolve
    rw [h]
    rfl

namespace IsVariant

variable (h : q.IsVariant kind idType base)
include h

/-- A variant exists at the versions of the plain query. -/
theorem rel_at? (v : Version) :
    Option.Rel (fun x y => kind.Answers idType x.schema y.schema) (base.at? v) (q.at? v) := by
  have hschema := h.schema v
  unfold Query.at?
  rw [h.window]
  split
  · revert hschema
    generalize base.schema.at? v = element, q.schema.at? v = answer
    intro hschema
    cases hschema with
    | some hanswers => exact .some hanswers
    | none => exact .none
  · exact .none

theorem answer_eq_ok_none_iff : q.answer r v p = .ok none ↔ base.answer r v p' = .ok none := by
  rw [Query.answer_eq_ok_none_iff, Query.answer_eq_ok_none_iff]
  have hat := h.rel_at? v
  revert hat
  generalize base.at? v = x, q.at? v = y
  intro hat
  cases hat with
  | some _ => exact iff_of_false (by simp) (by simp)
  | none => exact Iff.rfl

/-- Where both are resolved, the answers stand in the same relation. -/
theorem answers {x y : ResolvedQuery} (hx : base.answer r v p = .ok (some x))
    (hy : q.answer r v p' = .ok (some y)) : kind.Answers idType x.schema y.schema := by
  have hat := h.rel_at? v
  rw [at?_of_answer hx, at?_of_answer hy] at hat
  cases hat with
  | some hanswers => exact hanswers

end IsVariant

end Query

namespace Endpoint

variable {e : Endpoint} {r : Registry} {base : Query} {index : Index}

theorem isVariant_indexQuery (base : Query) (kind : IndexQuery) (idType : TypeUse) :
    (indexQuery base idType kind).IsVariant kind idType base where
  path := rfl
  endpoint := rfl
  summary := rfl
  window := rfl
  cacheSeconds := rfl
  security := rfl
  isLocalized := rfl
  pathParameters := rfl
  suffix := rfl
  details := rfl
  ownParameters x hx :=
    SortedMap.get?_foldl_insert_of_mem (g := id) (kind.nodup_keys_indexParameters idType)
      (IndexQuery.asksBy_iff.mp hx)
  otherParameters key hkey :=
    SortedMap.get?_foldl_insert_of_ne (g := id) fun x hx => hkey x (IndexQuery.asksBy_iff.mpr hx)
  schema v := by
    show Option.Rel _ _ ((base.schema.map (indexSchema idType kind)).at? v)
    rw [Timeline.at?_map]
    cases base.schema.at? v with
    | none => exact .none
    | some element => exact .some (kind.answers_indexSchema idType element)

/-- The endpoint without its index. -/
def withoutIndex (e : Endpoint) : Endpoint := { e with index := none }

theorem queries_withoutIndex (h : e.baseQuery = .ok base) :
    e.withoutIndex.queries r = .ok [base] := by
  have hbase : e.withoutIndex.baseQuery = .ok base := h
  exact Except.bind_eq_ok_iff.mpr ⟨base, hbase, rfl⟩

/-- **The queries of an index are the variants of one query**, one for each way to ask and in
their order. It is the query that the endpoint offers without its index. Each variant is
resolved to nothing exactly where that query is, and where both are resolved to something
their answers are related as their ways of asking say. -/
theorem queries_are_variants {queries : List Query} (hindex : e.index = some index)
    (h : e.queries r = .ok queries) :
    ∃ base type, e.withoutIndex.queries r = .ok [base] ∧
      idType r base index.idKey = .ok type ∧
      List.Forall₂ (fun kind q => q.IsVariant kind type base ∧ ∀ v p p',
          (q.answer r v p = .ok none ↔ base.answer r v p' = .ok none) ∧
          ∀ x y, base.answer r v p = .ok (some x) → q.answer r v p' = .ok (some y) →
            kind.Answers type x.schema y.schema)
        index.queries queries := by
  obtain ⟨base, type, hbase, htype, rfl⟩ := queries_eq_ok_of_index hindex h
  refine ⟨base, type, queries_withoutIndex hbase, htype, ?_⟩
  rw [List.forall₂_map_right_iff]
  refine List.forall₂_same.mpr fun kind _ => ?_
  have hvariant := isVariant_indexQuery base kind type
  exact ⟨hvariant, fun v p p' => ⟨hvariant.answer_eq_ok_none_iff,
    fun x y hx hy => hvariant.answers hx hy⟩⟩

end Endpoint

/-! ### An index of nodes -/

namespace NodeTree

/-- An index of the nodes until one version. It declares a parameter under a key that one of
its ways to ask needs for itself. -/
def nodeIndex : Endpoint :=
  { Endpoint.make "Nodes" "/nodes" with
    stop := some .dated20190516
    queryParameters := [.make "id" (.primitive .boolean) "" true,
      .make "depth" (.primitive .integer) "" true]
    schemas := [(.classic, .declaration node)]
    index := some ⟨"id", [.ids, .byId, .byIds true, .byPage]⟩ }

/-- The nodes are asked for in four ways. The declared parameter gives way where they are
asked for one by one, and stays where several are asked for by their IDs or by pages. No query
is left when the endpoint has stopped. -/
theorem queries_are_variants_nodes :
    ∃ type all one several paged,
      nodeIndex.queries definition.registry = .ok [all, one, several, paged] ∧
      one.request.queryParameters.get? "id" =
        some ⟨"id", type, ⟨["id"]⟩, "The ID of the requested element.", false⟩ ∧
      several.request.queryParameters.get? "id" =
        some (.make "id" (.primitive .boolean) "" true) ∧
      (∃ ids, several.request.queryParameters.get? "ids" = some ids ∧
        ids.type = .array type false ∧ ids.isOptional = false) ∧
      (∃ page, paged.request.queryParameters.get? "page" = some page ∧
        page.type = .primitive .integer ∧ page.isOptional = false) ∧
      (∃ size, paged.request.queryParameters.get? "page_size" = some size ∧
        size.type = .primitive .integer ∧ size.isOptional = true) ∧
      several.schema.at? .classic = some (.arrayOf (.declaration node)) ∧
      paged.answer definition.registry .dated20190516 .empty = .ok none := by
  obtain ⟨queries, h⟩ := Except.isOk_iff_exists.mp
    (show (nodeIndex.queries definition.registry).isOk = true by decide +kernel)
  obtain ⟨base, type, hbase, -, hvariants⟩ := Endpoint.queries_are_variants rfl h
  have hplain : ∀ base ∈ (nodeIndex.withoutIndex.queries definition.registry).toOption.getD [],
      base.request.queryParameters.get? "id" = some (.make "id" (.primitive .boolean) "" true) ∧
      base.schema.at? .classic = some (.declaration node) ∧
      base.at? .dated20190516 = none := by decide +kernel
  rw [hbase] at hplain
  obtain ⟨hid, hnodes, hstopped⟩ := hplain base List.mem_cons_self
  obtain ⟨all, _, -, hvariants₁, rfl⟩ := List.forall₂_cons_left_iff.mp hvariants
  obtain ⟨one, _, ⟨hone, -⟩, hvariants₂, rfl⟩ := List.forall₂_cons_left_iff.mp hvariants₁
  obtain ⟨several, _, ⟨hseveral, -⟩, hvariants₃, rfl⟩ := List.forall₂_cons_left_iff.mp hvariants₂
  obtain ⟨paged, _, ⟨hpages, hpaged⟩, hvariants₄, rfl⟩ := List.forall₂_cons_left_iff.mp hvariants₃
  obtain rfl := List.forall₂_nil_left_iff.mp hvariants₄
  refine ⟨type, all, one, several, paged, h, hone.ownParameters _ .id, ?_,
    ⟨_, hseveral.ownParameters _ .idsOrAll, rfl, rfl⟩,
    ⟨_, hpages.ownParameters _ .page, rfl, rfl⟩,
    ⟨_, hpages.ownParameters _ .pageSize, rfl, rfl⟩, ?_, ?_⟩
  · rw [hseveral.otherParameters "id" fun x hx => by cases hx; simp]
    exact hid
  · have hschema := hseveral.schema .classic
    rw [hnodes] at hschema
    generalize several.schema.at? .classic = answer at hschema ⊢
    cases hschema with
    | some hanswers =>
        cases hanswers
        rfl
  · exact (hpaged _ _ .empty).1.mpr (Query.answer_eq_ok_none_iff.mpr hstopped)

end NodeTree

end ApiChronicle
