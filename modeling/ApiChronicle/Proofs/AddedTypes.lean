import ApiChronicle.Proofs.DeclaredTypes
import Mathlib.Data.List.Find

/-! # ApiChronicle.Proofs.AddedTypes

**Adding a type to a catalogue** leaves alone what is there already.

References are resolved against all names of a catalogue, so a new name could take one over.
It does not if the new type stands at the top: a reference inside a declaration is looked for
below the declarations around it first, and everything there starts with the key of a type
that was there before (`References.keeps_of_apart`). What keeps its meaning keeps its history
(`Placement.history_entails`), and so the whole definition is the old one with some types
more (`definition_of_added`).
-/

namespace ApiChronicle.Catalogue

variable {refs refs' : References} {scope : List String}

/-! ### References that keep their meaning -/

/-- What is meant inside the declarations `scope` is still meant there. -/
def References.Keeps (refs refs' : References) (scope : List String) : Prop :=
  ∀ ref, Except.Entails (refs.resolve scope ref) (refs'.resolve scope ref)

theorem References.keeps_of_named
    (h : ∀ reference, Except.Entails (refs.named scope reference) (refs'.named scope reference)) :
    refs.Keeps refs' scope := by
  intro ref
  induction ref with
  | named reference => exact h reference
  | array elements nullable ih => exact ih.bind fun _ => .refl _
  | map keys values nullable ihKeys ihValues =>
      exact ihKeys.bind fun _ => ihValues.bind fun _ => .refl _

theorem membersOf_entails {ε α : Type} {make make' : String → ε → Except DefinitionError α}
    (h : ∀ key e, Except.Entails (make key e) (make' key e)) (listing : Listing (List ε)) :
    Except.Entails (membersOf make listing) (membersOf make' listing) :=
  List.entails_mapM fun e _ => h e.1 e.2

section Keeps

variable (h : refs.Keeps refs' scope)

include h

theorem PropertyEntry.property_entails (key : String) (e : PropertyEntry) :
    Except.Entails (e.property refs scope key) (e.property refs' scope key) :=
  (h e.type).bind fun _ => .refl _

theorem InterpretationEntry.interpretation_entails (key : String) (e : InterpretationEntry) :
    Except.Entails (e.interpretation refs scope key) (e.interpretation refs' scope key) :=
  (h e.type).bind fun _ => .refl _

theorem ElementEntry.element_entails (e : ElementEntry) :
    Except.Entails (e.element refs scope) (e.element refs' scope) :=
  (h e.type).bind fun _ => .refl _

theorem TypeBody.history_entails (description : String) (body : TypeBody) :
    Except.Entails (body.history refs scope description)
      (body.history refs' scope description) := by
  cases body with
  | record properties =>
      exact (membersOf_entails (PropertyEntry.property_entails h) _).bind fun _ => .refl _
  | conditional selector shared arms =>
      exact (membersOf_entails (PropertyEntry.property_entails h) _).bind fun _ =>
        (membersOf_entails (InterpretationEntry.interpretation_entails h) _).bind fun _ => .refl _
  | enumeration underlying values => exact .refl _
  | tuple elements =>
      exact (List.entails_mapM fun e _ => ElementEntry.element_entails h e).bind fun _ => .refl _

end Keeps

theorem Placement.history_entails {p : Placement} (h : refs.Keeps refs' p.path) :
    Except.Entails (p.history refs) (p.history refs') :=
  TypeBody.history_entails h p.description p.body

/-- An endpoint stands outside of all declarations. -/
theorem EndpointEntry.endpoint_entails (h : refs.Keeps refs' []) (e : EndpointEntry) :
    Except.Entails (e.endpoint refs) (e.endpoint refs') := by
  have hpath : Except.Entails _ _ := List.entails_mapM (l := e.pathParameters)
    fun p _ => (h p.2.type).bind fun t => .refl (pure (PathParameter.make p.1 t p.2.description))
  have hquery : Except.Entails _ _ := List.entails_mapM (l := e.queryParameters)
    fun p _ => (h p.2.type).bind fun t =>
      .refl (pure (QueryParameter.make p.1 t p.2.description p.2.optional))
  have hschemas : Except.Entails _ _ := List.entails_mapM
    (l := (e.schema.map fun type => (Version.classic, type)).toList ++ e.schemas)
    fun p _ => (h p.2).bind fun t => .refl (pure (p.1, t))
  exact hpath.bind fun _ => hquery.bind fun _ => hschemas.bind fun _ => .refl _

/-! ### Names that a scope does not reach -/

theorem path_ofPath {path : List String} (h : path ≠ []) :
    (QualifiedName.ofPath path).path = path.map Name.derive := by
  have hnames : path.map Name.derive ≠ [] := by simpa using h
  rw [QualifiedName.ofPath, QualifiedName.path, QualifiedName.nest, QualifiedName.name,
    List.getLastD_eq_getLast?, List.getLast?_eq_some_getLast hnames, Option.getD_some,
    List.dropLast_append_getLast]

namespace References

/-- The names that a path may mean below one of the declarations `scope`. -/
def innerCandidates (scope path : List String) : List QualifiedName :=
  (List.range scope.length).reverse.map fun depth => .ofPath (scope.take (depth + 1) ++ path)

/-- A path is looked for at the top level last. -/
theorem candidates_eq (scope path : List String) :
    candidates scope path = innerCandidates scope path ++ [.ofPath path] := by
  simp [candidates, innerCandidates, List.range_succ_eq_map, Function.comp_def]

/-- All names below a scope start like the scope does. -/
theorem head?_path_of_mem_innerCandidates {path : List String} {n : QualifiedName}
    (h : n ∈ innerCandidates scope path) : n.path.head? = scope.head?.map Name.derive := by
  obtain ⟨depth, hdepth, rfl⟩ := List.mem_map.mp h
  cases scope with
  | nil => simp at hdepth
  | cons key rest =>
      rw [List.take_succ_cons, List.cons_append, path_ofPath (List.cons_ne_nil _ _)]
      rfl

/-- What a scope finds it still finds if all names that are new start differently. -/
theorem find?_candidates_of_apart (hold : ∀ n ∈ refs.declarations, n ∈ refs'.declarations)
    (hnew : ∀ n ∈ refs'.declarations, n ∈ refs.declarations ∨
      n.path.head? ≠ scope.head?.map Name.derive) {path : List String} {n : QualifiedName}
    (h : (candidates scope path).find? (· ∈ refs.declarations) = some n) :
    (candidates scope path).find? (· ∈ refs'.declarations) = some n := by
  have hinner : (innerCandidates scope path).find? (· ∈ refs'.declarations) =
      (innerCandidates scope path).find? (· ∈ refs.declarations) := by
    refine List.find?_congr fun n hn => decide_eq_decide.mpr ⟨fun hmem => ?_, hold n⟩
    exact (hnew n hmem).resolve_right fun hne => hne (head?_path_of_mem_innerCandidates hn)
  rw [candidates_eq, List.find?_append] at h ⊢
  rw [hinner]
  rcases Option.or_eq_some_iff.mp h with hfound | ⟨hnone, htop⟩
  · rw [hfound, Option.some_or]
  · obtain rfl := List.mem_singleton.mp (List.mem_of_find?_eq_some htop)
    have hmem := List.find?_some (p := fun n => decide (n ∈ refs.declarations)) htop
    rw [hnone, Option.none_or]
    simp [hold _ (of_decide_eq_true hmem)]

/-- So references keep their meaning there. -/
theorem keeps_of_apart (haliases : refs'.aliases = refs.aliases)
    (hold : ∀ n ∈ refs.declarations, n ∈ refs'.declarations)
    (hnew : ∀ n ∈ refs'.declarations, n ∈ refs.declarations ∨
      n.path.head? ≠ scope.head?.map Name.derive) : refs.Keeps refs' scope := by
  refine keeps_of_named fun reference t h => ?_
  rw [named_eq_ok_iff] at h ⊢
  rw [haliases]
  obtain hprim | ⟨hprim, hkey | ⟨hkey, n, hfind, ht⟩⟩ := h
  · exact Or.inl hprim
  · exact Or.inr ⟨hprim, Or.inl hkey⟩
  · exact Or.inr ⟨hprim, Or.inr ⟨hkey, n, find?_candidates_of_apart hold hnew hfind, ht⟩⟩

end References

/-! ### Where the types of a listing stand -/

mutual

theorem prefix_of_mem_placementsOf {parent : List String} {key : String} {p : Placement} :
    ∀ {type : TypeEntry}, p ∈ placementsOf parent key type → parent ++ [key] <+: p.path
  | .mk description body nested, h => by
      rw [placementsOf, List.mem_append] at h
      rcases h with h | h
      · obtain ⟨t, -, ht⟩ := exists_prefix_of_mem_placements h
        exact (List.prefix_append _ _).trans ht
      · obtain rfl := List.mem_singleton.mp h
        exact List.prefix_rfl

/-- A type inside a listing stands at or below the path of a listed type. -/
theorem exists_prefix_of_mem_placements {parent : List String} {p : Placement} :
    ∀ {types : List (String × TypeEntry)}, p ∈ placements parent types →
      ∃ t ∈ types, parent ++ [t.1] <+: p.path
  | [], h => absurd h List.not_mem_nil
  | (key, type) :: rest, h => by
      rw [placements, List.mem_append] at h
      rcases h with h | h
      · exact ⟨_, List.mem_cons_self, prefix_of_mem_placementsOf h⟩
      · obtain ⟨t, ht, hprefix⟩ := exists_prefix_of_mem_placements h
        exact ⟨t, List.mem_cons_of_mem _ ht, hprefix⟩

end

theorem placements_append (parent : List String) (types types' : List (String × TypeEntry)) :
    placements parent (types ++ types') = placements parent types ++ placements parent types' := by
  induction types with
  | nil => rfl
  | cons t rest ih => rw [List.cons_append, placements, placements, ih, List.append_assoc]

/-- The name of a type starts with the outermost key around it. -/
theorem Placement.head?_path_name {p : Placement} {key : String} (h : [key] <+: p.path) :
    p.name.path.head? = some (Name.derive key) := by
  obtain ⟨rest, hpath⟩ := h
  rw [name, ← hpath, List.singleton_append, path_ofPath (List.cons_ne_nil _ _)]
  rfl

/-- The names at the top level are among the written ones. -/
theorem topLevel_sublist (types : List (String × TypeEntry)) :
    (types.map fun t => QualifiedName.declaration [] (Name.derive t.1)).Sublist
      ((placements [] types).map fun p =>
        .declaration (p.parent.map Name.derive) (Name.derive p.key)) := by
  induction types with
  | nil => exact .slnil
  | cons t rest ih =>
      obtain ⟨key, description, body, nested⟩ := t
      rw [placements, placementsOf, List.map_cons, List.map_append, List.map_append,
        List.append_assoc]
      exact (List.Sublist.cons_cons _ ih).trans (List.sublist_append_right _ _)

/-- Types that are marked by references of one meaning are marked alike. -/
theorem auxiliary_of_keeps (h : refs.Keeps refs' []) {references : List String}
    {r r' s s' : Registry} (hsame : r.auxiliary = r'.auxiliary)
    (hrun : references.foldlM (fun r reference => markAuxiliary refs reference r) r = .ok s)
    (hrun' : references.foldlM (fun r reference => markAuxiliary refs' reference r) r' = .ok s') :
    s.auxiliary = s'.auxiliary := by
  induction references generalizing r r' with
  | nil =>
      obtain rfl := Except.ok.inj hrun
      obtain rfl := Except.ok.inj hrun'
      exact hsame
  | cons reference rest ih =>
      obtain ⟨r₁, hfirst, hrest⟩ := List.foldlM_cons_eq_ok_iff.mp hrun
      obtain ⟨r₁', hfirst', hrest'⟩ := List.foldlM_cons_eq_ok_iff.mp hrun'
      obtain ⟨t, ht, hmark⟩ := Except.bind_eq_ok_iff.mp hfirst
      obtain ⟨t', ht', hmark'⟩ := Except.bind_eq_ok_iff.mp hfirst'
      obtain rfl := Except.ok.inj ((h (.named reference) t ht).symm.trans ht')
      refine ih ?_ hrest hrest'
      cases t with
      | «alias» n | declaration n =>
          obtain ⟨_, hmark⟩ := EStateM.kept_eq_ok_iff.mp hmark
          obtain ⟨_, hmark'⟩ := EStateM.kept_eq_ok_iff.mp hmark'
          obtain ⟨-, rfl⟩ := Registry.markAuxiliary_eq_ok_iff.mp hmark
          obtain ⟨-, rfl⟩ := Registry.markAuxiliary_eq_ok_iff.mp hmark'
          exact congrArg (SortedMap.insert · n ()) hsame
      | primitive | array | map => cases hmark

/-! ### One more type -/

section Added

variable {c : Catalogue} {before after : List (String × TypeEntry)} {key : String}
  {type : TypeEntry} {d d' : ApiDefinition}

/-- The catalogue with one more type at the top level. -/
def withType (c : Catalogue) (before : List (String × TypeEntry)) (key : String)
    (type : TypeEntry) (after : List (String × TypeEntry)) : Catalogue :=
  { c with types := before ++ (key, type) :: after }

theorem mem_placements_withType (htypes : c.types = before ++ after) {p : Placement} :
    p ∈ placements [] (c.withType before key type after).types ↔
      p ∈ placements [] c.types ∨ p ∈ placementsOf [] key type := by
  rw [htypes, withType, placements_append, placements_append, placements]
  simp only [List.mem_append]
  tauto

/-- In a catalogue that can be loaded, the key of a top-level type is not used for another. -/
theorem derive_key_ne_of_definition (h : (c.withType before key type after).definition = .ok d)
    {t : String × TypeEntry} (ht : t ∈ before ++ after) : Name.derive t.1 ≠ Name.derive key := by
  have hnames : (c.withType before key type after).writtenNames.Nodup :=
    (keys_of_definition h).nodup_iff.mp d.registry.types.keys_nodup
  have htop := (List.nodup_append.mp hnames).2.1.sublist (topLevel_sublist _)
  have hmiddle : (before ++ (key, type) :: after).Perm ((key, type) :: (before ++ after)) :=
    List.perm_middle
  rw [withType, (hmiddle.map _).nodup_iff, List.map_cons, List.nodup_cons] at htop
  exact fun hkey => htop.1 (List.mem_map.mpr ⟨t, ht, by rw [hkey]⟩)

/-- Whatever stands inside the types that were there before keeps its meaning, and so does
what stands outside of all types. -/
theorem keeps_withType (htypes : c.types = before ++ after)
    (h : (c.withType before key type after).definition = .ok d) {scope : List String}
    (hscope : scope = [] ∨ ∃ p ∈ placements [] c.types, scope = p.path) :
    (References.ofCatalogue c).Keeps (.ofCatalogue (c.withType before key type after)) scope := by
  refine References.keeps_of_apart rfl (fun n hn => ?_) fun n hn => ?_
  · obtain ⟨p, hp, rfl⟩ := (mem_ofTypes_iff [] c.types).mp hn
    exact (mem_ofTypes_iff [] _).mpr ⟨p, (mem_placements_withType htypes).mpr (Or.inl hp), rfl⟩
  · obtain ⟨p, hp, rfl⟩ := (mem_ofTypes_iff [] _).mp hn
    rcases (mem_placements_withType htypes).mp hp with hp | hp
    · exact Or.inl ((mem_ofTypes_iff [] c.types).mpr ⟨p, hp, rfl⟩)
    -- a new name starts with the new key, and the scope with another one or not at all
    rw [Placement.head?_path_name (prefix_of_mem_placementsOf hp)]
    right
    rcases hscope with rfl | ⟨q, hq, rfl⟩
    · exact Option.some_ne_none _
    · obtain ⟨t, ht, rest, hpath⟩ := exists_prefix_of_mem_placements hq
      rw [← hpath, List.nil_append, List.singleton_append, List.head?_cons, Option.map_some]
      exact fun heq => derive_key_ne_of_definition h (htypes ▸ ht) (Option.some.inj heq).symm

/-- What is written before is still written. -/
theorem mem_written_withType (htypes : c.types = before ++ after)
    (h : (c.withType before key type after).definition = .ok d) {n : QualifiedName}
    {history : History} (hn : (n, .ok history) ∈ c.written (.ofCatalogue c)) :
    (n, .ok history) ∈ (c.withType before key type after).written
      (.ofCatalogue (c.withType before key type after)) := by
  rcases List.mem_append.mp hn with hn | hn
  · exact List.mem_append_left _ hn
  · obtain ⟨p, hp, hsaid⟩ := List.mem_map.mp hn
    obtain ⟨rfl, hhistory⟩ := Prod.mk.inj hsaid
    have hkept := Placement.history_entails (keeps_withType htypes h (Or.inr ⟨p, hp, rfl⟩))
    refine List.mem_append_right _ (List.mem_map.mpr
      ⟨p, (mem_placements_withType htypes).mpr (Or.inl hp), ?_⟩)
    rw [hkept history hhistory]

end Added

/-- **Adding a top-level type is conservative.** If a catalogue can be loaded before and after
a type is added to its top level, with whatever stands inside it, then every name that was
registered keeps its history, the auxiliary types, the languages and the endpoints are the
same, and no reference of the catalogue changes its meaning. -/
theorem definition_of_added {c : Catalogue} {before after : List (String × TypeEntry)}
    {key : String} {type : TypeEntry} {d d' : ApiDefinition} (htypes : c.types = before ++ after)
    (h : c.definition = .ok d) (h' : (c.withType before key type after).definition = .ok d') :
    (∀ n history, d.registry.get? n = some history → d'.registry.get? n = some history) ∧
    d'.registry.auxiliary = d.registry.auxiliary ∧
    d'.languages = d.languages ∧
    d'.endpoints = d.endpoints ∧
    ∀ x ∈ c.references, (References.ofCatalogue (c.withType before key type after)).resolve x.1 x.2 =
      (References.ofCatalogue c).resolve x.1 x.2 := by
  have houtside := keeps_withType htypes h' (Or.inl rfl)
  obtain ⟨r, hr, hauxiliary, hendpoints, hlanguages⟩ := definition_eq_ok_iff.mp h
  obtain ⟨r', hr', hauxiliary', hendpoints', hlanguages'⟩ := definition_eq_ok_iff.mp h'
  refine ⟨fun n history hn => ?_, ?_, hlanguages'.trans hlanguages.symm, ?_, fun x hx => ?_⟩
  · rw [get?_of_definition h] at hn
    exact (get?_of_definition h').mpr (mem_written_withType htypes h' hn)
  · have hempty := (declarations_eq_ok hr).1.trans (declarations_eq_ok hr').1.symm
    exact (auxiliary_of_keeps houtside hempty hauxiliary hauxiliary').symm
  · have hkept := List.entails_mapM (l := c.endpoints) fun e _ =>
      EndpointEntry.endpoint_entails houtside e
    exact Except.ok.inj (hendpoints'.symm.trans (hkept _ hendpoints))
  · obtain ⟨t, ht, -⟩ := exists_means_of_mem_references h hx
    have hscope : x.1 = [] ∨ ∃ p ∈ placements [] c.types, x.1 = p.path := by
      rcases List.mem_append.mp hx with hx | hx
      · obtain ⟨p, hp, hx⟩ := List.mem_flatMap.mp hx
        obtain ⟨ref, -, rfl⟩ := List.mem_map.mp hx
        exact Or.inr ⟨p, hp, rfl⟩
      · obtain ⟨ref, -, rfl⟩ := List.mem_map.mp hx
        exact Or.inl rfl
    rw [ht, keeps_withType htypes h' hscope x.2 t ht]

/-- A book keeps its own pages when there are pages of another kind besides books. -/
theorem definition_of_added_books :
    ∃ d d', books.definition = .ok d ∧
      (books.withType [] "Page" (.bare [("Book", .bare [])]) books.types).definition = .ok d' ∧
      (∀ n history, d.registry.get? n = some history → d'.registry.get? n = some history) ∧
      (References.ofCatalogue
        (books.withType [] "Page" (.bare [("Book", .bare [])]) books.types)).resolve ["Book"]
          (.array (.named "Page") false) =
        (References.ofCatalogue books).resolve ["Book"] (.array (.named "Page") false) := by
  obtain ⟨d, h⟩ : ∃ d, books.definition = .ok d := Except.isOk_iff_exists.mp (by decide +kernel)
  obtain ⟨d', h'⟩ : ∃ d',
      (books.withType [] "Page" (.bare [("Book", .bare [])]) books.types).definition = .ok d' :=
    Except.isOk_iff_exists.mp (by decide +kernel)
  have htypes : books.types = [] ++ books.types := rfl
  obtain ⟨hget, -, -, -, hreferences⟩ := definition_of_added htypes h h'
  exact ⟨d, d', h, h', hget, hreferences (_, _) (by decide +kernel)⟩

end ApiChronicle.Catalogue
