import ApiChronicle.JsonSchema.Export
import ApiChronicle.Proofs.BuildClosure
import ApiChronicle.Proofs.Registry
import ApiChronicle.Proofs.SeparableNames

/-! # ApiChronicle.Proofs.DisplayNames

**Which types the text of a name tells apart.**

Documents, exports and look-ups name a type by the text of its qualified name, and a
registry refuses an alias and a top-level declaration of one name for this reason
(`Registry.Reached.apart`). It compares their words, though, and names with different words
may be written alike, so two types can be registered under one text
(`Registry.Reached.same_text_registered`). Among separable names this does not happen: their
text identifies a registered type wherever it is used (`Registry.Reached.text_identifies`).
-/

namespace ApiChronicle

/-! ### Registries that are reached -/

namespace Registry

variable {r r' : Registry} {n : QualifiedName} {history : History}

/-- A registry that is left after calls of `insert` and `markAuxiliary`, some of which may
have been refused. -/
inductive Reached : Registry → Prop
  | empty : Reached .empty
  | insert {r : Registry} {n : QualifiedName} {history : History}
      {outcome : EStateM.Result DefinitionError Registry Unit} (before : Reached r)
      (h : (insert n history).run r = outcome) : Reached outcome.left
  | markAuxiliary {r : Registry} {n : QualifiedName}
      {outcome : EStateM.Result DefinitionError Registry Unit} (before : Reached r)
      (h : (markAuxiliary n).run r = outcome) : Reached outcome.left

/-- No name is declared together with the name of the other kind that is written alike. -/
def Apart (r : Registry) : Prop :=
  ∀ n twin, n.twin? = some twin → r.contains n = true → r.contains twin = false

theorem contains_of_insert (h : (insert n history).run r = .ok () r') (m : QualifiedName) :
    r'.contains m = true ↔ m = n ∨ r.contains m = true := by
  obtain ⟨-, rfl⟩ := insert_eq_ok_iff.mp h
  exact SortedMap.contains_insert

theorem Apart.insert (hr : r.Apart) (h : (insert n history).run r = .ok () r') : r'.Apart := by
  obtain ⟨-, hfree⟩ := fresh_of_insert h
  intro m twin hm hcontains
  -- each of the two is the new name or an old one
  by_contra htwin
  rw [Bool.not_eq_false, contains_of_insert h] at htwin
  rcases (contains_of_insert h m).mp hcontains with rfl | hold <;> rcases htwin with rfl | hold'
  · exact QualifiedName.twin?_ne_self hm
  · exact Bool.false_ne_true ((hfree twin hm).symm.trans hold')
  · exact Bool.false_ne_true ((hfree m (QualifiedName.twin?_comm.mp hm)).symm.trans hold)
  · exact Bool.false_ne_true ((hr m twin hm hold).symm.trans hold')

theorem Reached.apart (h : r.Reached) : r.Apart := by
  induction h with
  | empty =>
      intro n twin _ hcontains
      cases hcontains
  | @insert r _ _ outcome _ h ih =>
      cases outcome with
      | ok _ r' => exact ih.insert h
      | error e r' =>
          obtain ⟨-, -, rfl⟩ := insert_eq_error_iff.mp h
          exact ih
  | @markAuxiliary r n outcome _ h ih =>
      -- either way the declared types are the same
      rw [markAuxiliary_run] at h
      subst h
      split <;> exact ih

/-- Among separable names, the text tells the registered types apart. -/
theorem Reached.eq_of_text_eq (h : r.Reached) {a b : QualifiedName} (ha : r.contains a = true)
    (hb : r.contains b = true) (hseparable : a.isSeparable = true)
    (hseparable' : b.isSeparable = true) (htext : a.text = b.text) : a = b := by
  rcases QualifiedName.eq_or_twin_of_text_eq hseparable hseparable' htext with heq | htwin
  · exact heq
  · exact absurd hb (Bool.eq_false_iff.mp (h.apart a b htwin ha))

end Registry

/-! ### Documents -/

namespace Listing

variable {α : Type}

theorem set_of_not_mem {name : String} {value : α} {l : Listing α}
    (h : name ∉ l.map Prod.fst) : set name value l = l ++ [(name, value)] := by
  induction l with
  | nil => rfl
  | cons e rest ih =>
      obtain ⟨hne, hrest⟩ := List.ne_and_not_mem_of_not_mem_cons h
      simp [set, hne.symm, ih hrest]

/-- Entries under different names do not replace one another. -/
theorem ofEntries_of_nodup {entries : List (String × α)} (h : (entries.map Prod.fst).Nodup) :
    ofEntries entries = entries := by
  suffices hrun : ∀ listing : Listing α, ((listing ++ entries).map Prod.fst).Nodup →
      entries.foldl (fun listing e => set e.1 e.2 listing) listing = listing ++ entries from
    hrun [] h
  clear h
  induction entries with
  | nil => simp
  | cons e rest ih =>
      intro listing h
      have hfresh : e.1 ∉ listing.map Prod.fst := by
        rw [List.map_append, List.map_cons, List.nodup_middle] at h
        exact fun hmem => (List.nodup_cons.mp h).1 (List.mem_append_left _ hmem)
      rw [List.foldl_cons, set_of_not_mem hfresh, ih _ (by simpa using h), List.append_assoc]
      rfl

end Listing

namespace ApiDefinition

variable {d : ApiDefinition} {s : Selection} {api : Api} {n : QualifiedName}

/-- The types of a built API are registered. -/
theorem contains_of_mem_keys (h : d.build s = .ok api) (hn : n ∈ api.types.keys) :
    d.registry.contains n = true := by
  obtain ⟨schema, hschema⟩ := SortedMap.contains_iff_exists.mp (SortedMap.mem_keys_iff.mp hn)
  obtain ⟨decl, ⟨history, hget, -⟩, -⟩ := translation_of_build h hschema
  exact Registry.contains_iff.mpr ⟨history, hget⟩

/-- The types of an API over separable names have different texts. -/
theorem nodup_texts (hr : d.registry.Reached)
    (hseparable : ∀ n, d.registry.contains n = true → n.isSeparable = true)
    (h : d.build s = .ok api) : (api.types.keys.map QualifiedName.text).Nodup := by
  refine List.Nodup.map_on (fun a ha b hb htext => ?_) api.types.keys_nodup
  have ha := contains_of_mem_keys h ha
  have hb := contains_of_mem_keys h hb
  exact hr.eq_of_text_eq ha hb (hseparable a ha) (hseparable b hb) htext

end ApiDefinition

/-- In an API whose types have different texts, a type is found by its text. -/
theorem Api.findType?_text {api : Api} (h : (api.types.keys.map QualifiedName.text).Nodup)
    {n : QualifiedName} {schema : Schema} (hschema : api.types.get? n = some schema) :
    api.findType? n.text = some (n, schema) := by
  have hmem : (n, schema) ∈ api.types.entries := SortedMap.get?_eq_some_iff.mp hschema
  have hnodup : (api.types.entries.map fun e => e.1.text).Nodup := by
    rwa [SortedMap.keys, List.map_map] at h
  cases hfind : api.types.entries.find? fun e => e.1.text = n.text with
  | none => exact absurd (decide_eq_true rfl) (List.find?_eq_none.mp hfind _ hmem)
  | some e =>
      have htext := List.find?_some (p := fun e : QualifiedName × Schema => e.1.text = n.text) hfind
      have he := List.inj_on_of_nodup_map hnodup (List.mem_of_find?_eq_some hfind) hmem
        (of_decide_eq_true htext)
      exact hfind.trans (congrArg some he)

/-- In an API whose types have different texts, the definitions of a document have different
keys. -/
theorem Api.nodup_definitions {api : Api} (h : (api.types.keys.map QualifiedName.text).Nodup)
    (root : JsonSchema) :
    (((api.document root).definitions.map fun e =>
      (e.1.text, JsonSchema.toJson e.2)).map Prod.fst).Nodup := by
  rw [SortedMap.keys, List.map_map] at h
  simpa [document, Function.comp_def] using h

/-- No definition of such a document replaces another. -/
theorem Api.ofEntries_document {api : Api} (h : (api.types.keys.map QualifiedName.text).Nodup)
    (root : JsonSchema) :
    Listing.ofEntries ((api.document root).definitions.map fun e =>
      (e.1.text, JsonSchema.toJson e.2)) =
    (api.document root).definitions.map fun e => (e.1.text, JsonSchema.toJson e.2) :=
  Listing.ofEntries_of_nodup (nodup_definitions h root)

/-! ### What the text identifies -/

/-- **The text of separable names identifies registered types.** In every registry that
declarations and markings lead to, two separable names are never registered under one text.
If all registered names are separable, the types of every built API have different texts, a
look-up by text finds the type it is the text of, and no definition of an exported document
replaces another. -/
theorem Registry.Reached.text_identifies {r : Registry} (h : r.Reached) :
    (∀ a b, r.contains a = true → r.contains b = true → a.isSeparable = true →
      b.isSeparable = true → a.text = b.text → a = b) ∧
    ∀ d : ApiDefinition, d.registry = r →
      (∀ n, r.contains n = true → n.isSeparable = true) →
      ∀ s api, d.build s = .ok api →
        (api.types.keys.map QualifiedName.text).Nodup ∧
        (∀ n schema, api.types.get? n = some schema →
          api.findType? n.text = some (n, schema)) ∧
        ∀ root, Listing.ofEntries ((api.document root).definitions.map fun e =>
            (e.1.text, JsonSchema.toJson e.2)) =
          (api.document root).definitions.map fun e => (e.1.text, JsonSchema.toJson e.2) := by
  refine ⟨fun a b ha hb => h.eq_of_text_eq ha hb, fun d hd hseparable s api hbuild => ?_⟩
  subst hd
  have hnodup := ApiDefinition.nodup_texts h hseparable hbuild
  exact ⟨hnodup, fun n schema hschema => Api.findType?_text hnodup hschema,
    Api.ofEntries_document hnodup⟩

/-- The registry of the nodes is declared type by type. -/
theorem NodeTree.reached : NodeTree.definition.registry.Reached := by
  have h : (do
      Registry.insert node (.constant nodeShape)
      Registry.insert nodeId (.constant (.alias ⟨nodeId, .integerId, ""⟩))
      Registry.insert orphan (.constant (.record ⟨orphan, .empty, ""⟩))
      Registry.markAuxiliary node).run .empty = .ok () definition.registry := by rfl
  obtain ⟨_, r₁, h₁, h⟩ := EStateM.bind_eq_ok_iff.mp h
  obtain ⟨_, r₂, h₂, h⟩ := EStateM.bind_eq_ok_iff.mp h
  obtain ⟨_, r₃, h₃, h⟩ := EStateM.bind_eq_ok_iff.mp h
  exact .markAuxiliary (.insert (.insert (.insert .empty h₁) h₂) h₃) h

/-- A node of the tree is found by its text. -/
theorem Registry.Reached.text_identifies_nodeTree :
    ∃ api schema, NodeTree.definition.build ⟨.classic, none, true⟩ = .ok api ∧
      api.types.get? NodeTree.node = some schema ∧
      api.findType? "Node" = some (NodeTree.node, schema) := by
  have hseparable : ∀ n ∈ NodeTree.definition.registry.types.keys, n.isSeparable = true := by
    decide +kernel
  obtain ⟨api, hbuild⟩ := NodeTree.exists_build
  obtain ⟨-, hfound, -⟩ := (text_identifies NodeTree.reached).2 NodeTree.definition rfl
    (fun n hn => hseparable n (SortedMap.mem_keys_iff.mpr hn)) _ api hbuild
  have hroot : NodeTree.definition.IsRoot ⟨.classic, none, true⟩ NodeTree.node :=
    .auxiliary rfl (by decide +kernel) ⟨.constant NodeTree.nodeShape, by rfl, rfl⟩
  obtain ⟨schema, hschema⟩ := SortedMap.contains_iff_exists.mp
    ((ApiDefinition.contains_types_of_build hbuild).mpr (.start hroot))
  have htext : NodeTree.node.text = "Node" := by decide +kernel
  exact ⟨api, schema, hbuild, hschema, htext ▸ hfound _ schema hschema⟩

/-- Two names of one text can both be registered: the one has the words `item` and `2`, the
other the single word `item2`. -/
theorem Registry.Reached.same_text_registered :
    ∃ (r : Registry) (a b : QualifiedName), a = .alias (Name.derive "item_2") ∧
      b = .declaration [] (Name.derive "Item2") ∧ r.Reached ∧ r.contains a = true ∧
      r.contains b = true ∧ a ≠ b ∧ a.text = b.text := by
  have hok : ((do
      Registry.insert (.alias (Name.derive "item_2"))
        (.constant (.alias ⟨.alias (Name.derive "item_2"), .string, ""⟩))
      Registry.insert (.declaration [] (Name.derive "Item2"))
        (.constant (.record ⟨.declaration [] (Name.derive "Item2"), .empty, ""⟩))).run
      .empty).kept.isOk = true := by
    decide +kernel
  obtain ⟨r, h⟩ := Except.isOk_iff_exists.mp hok
  obtain ⟨_, h⟩ := EStateM.kept_eq_ok_iff.mp h
  obtain ⟨_, r₁, hfirst, hsecond⟩ := EStateM.bind_eq_ok_iff.mp h
  have hold := (contains_of_insert hfirst _).mpr (Or.inl rfl)
  refine ⟨r, _, _, rfl, rfl, .insert (.insert .empty hfirst) hsecond,
    (contains_of_insert hsecond _).mpr (Or.inr hold),
    (contains_of_insert hsecond _).mpr (Or.inl rfl), ?_, ?_⟩
  · decide +kernel
  · decide +kernel

end ApiChronicle
