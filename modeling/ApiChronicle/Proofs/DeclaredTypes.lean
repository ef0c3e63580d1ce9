import ApiChronicle.Proofs.DisplayNames
import ApiChronicle.Proofs.LoadedDefinition
import ApiChronicle.Proofs.Reordering

/-! # ApiChronicle.Proofs.DeclaredTypes

**What a catalogue declares**, apart from the order in which it is declared.

What a type is declared to be depends on its body and on the meaning of references, and not
on the types declared before it (`TypeBody.history`). So a catalogue comes down to a list of
names, each with a history or a fault (`written`), and to load it is to take these into an
empty registry (`declarations_eq_ok_iff`). A registry refuses a name only if the name or its
twin is taken, so it takes in the same entries in any order (`Registry.insertAll_of_perm`),
and in the end it holds one type for every entry (`registered_names`).
-/

namespace ApiChronicle

/-! ### Taking in many types -/

namespace Registry

variable {r r' : Registry} {a b : QualifiedName} {x y : History}
  {entries entries' : List (QualifiedName × History)}

theorem contains_of_insert_eq_false_iff (h : (insert a x).run r = .ok () r') {m : QualifiedName} :
    r'.contains m = false ↔ m ≠ a ∧ r.contains m = false := by
  rw [← Bool.not_eq_true, contains_of_insert h, not_or, Bool.not_eq_true]

/-- Two declarations may change places. -/
theorem insert_comm {r₁ : Registry} (h : (insert a x).run r = .ok () r₁)
    (h' : (insert b y).run r₁ = .ok () r') :
    ∃ r₂, (insert b y).run r = .ok () r₂ ∧ (insert a x).run r₂ = .ok () r' := by
  obtain ⟨htaken, hr₁⟩ := insert_eq_ok_iff.mp h
  obtain ⟨hfreeA, htwinA⟩ := isTaken_eq_false_iff.mp htaken
  obtain ⟨htaken', rfl⟩ := insert_eq_ok_iff.mp h'
  obtain ⟨hfreeB, htwinB⟩ := isTaken_eq_false_iff.mp htaken'
  simp only [contains_of_insert_eq_false_iff h] at hfreeB htwinB
  have hfirst : (insert b y).run r = .ok () { r with types := r.types.insert b y } :=
    insert_eq_ok_iff.mpr ⟨isTaken_eq_false_iff.mpr
      ⟨hfreeB.2, fun twin hmem => (htwinB twin hmem).2⟩, rfl⟩
  refine ⟨_, hfirst, insert_eq_ok_iff.mpr ⟨isTaken_eq_false_iff.mpr ?_, ?_⟩⟩
  · simp only [contains_of_insert_eq_false_iff hfirst]
    refine ⟨⟨hfreeB.1.symm, hfreeA⟩, fun twin hmem => ⟨?_, htwinA twin hmem⟩⟩
    -- if the second name were the twin of the first, the first would be in its way
    rintro rfl
    exact (htwinB a (QualifiedName.twin?_comm.mp hmem)).1 rfl
  · rw [hr₁, SortedMap.insert_comm _ hfreeB.1.symm]

/-- The registry with one more type. -/
def inserted (r : Registry) (e : QualifiedName × History) : Except DefinitionError Registry :=
  ((insert e.1 e.2).run r).kept

theorem inserted_eq_ok_iff {e : QualifiedName × History} :
    r.inserted e = .ok r' ↔ (insert e.1 e.2).run r = .ok () r' :=
  EStateM.kept_eq_ok_iff.trans ⟨fun ⟨_, h⟩ => h, fun h => ⟨(), h⟩⟩

/-- Declare types one after the other. -/
def insertAll (r : Registry) (entries : List (QualifiedName × History)) :
    Except DefinitionError Registry :=
  entries.foldlM inserted r

/-- The registry lists the new entries next to the old ones. -/
theorem entries_of_insertAll (h : r.insertAll entries = .ok r') :
    r'.types.entries.Perm (entries ++ r.types.entries) := by
  induction entries generalizing r with
  | nil =>
      obtain rfl := Except.ok.inj h
      exact .refl _
  | cons e rest ih =>
      obtain ⟨r₁, hfirst, hrest⟩ := List.foldlM_cons_eq_ok_iff.mp h
      obtain ⟨hfree, rfl⟩ := insert_eq_ok_iff.mp (inserted_eq_ok_iff.mp hfirst)
      have hnew := SortedMap.entries_insert_perm (isTaken_eq_false_iff.mp hfree).1 e.2
      calc
        List.Perm r'.types.entries (rest ++ (r.types.insert e.1 e.2).entries) := ih hrest
        List.Perm _ (rest ++ e :: r.types.entries) := hnew.append_left rest
        List.Perm _ (e :: (rest ++ r.types.entries)) := List.perm_middle

theorem Apart.insertAll (hr : r.Apart) (h : r.insertAll entries = .ok r') : r'.Apart := by
  induction entries generalizing r with
  | nil =>
      obtain rfl := Except.ok.inj h
      exact hr
  | cons e rest ih =>
      obtain ⟨r₁, hfirst, hrest⟩ := List.foldlM_cons_eq_ok_iff.mp h
      exact ih (hr.insert (inserted_eq_ok_iff.mp hfirst)) hrest

/-- Types can be declared in any order, and the order leaves no trace. -/
theorem insertAll_of_perm (hperm : entries.Perm entries') (h : r.insertAll entries = .ok r') :
    r.insertAll entries' = .ok r' := by
  refine List.foldlM_of_perm (fun _ _ _ _ _ hfirst hsecond => ?_) hperm h
  simp only [inserted_eq_ok_iff] at hfirst hsecond ⊢
  exact insert_comm hfirst hsecond

end Registry

theorem Scope.kept_register (name : QualifiedName) (history : History) (r : Registry) :
    ((Scope.register name history).run r).kept = r.inserted (name, history) :=
  EStateM.kept_bind_pure

namespace Catalogue

variable {c : Catalogue} {r : Registry}

/-! ### What is written -/

/-- What the body of a type says, at the end of a path. -/
def TypeBody.history (refs : References) (path : List String) (description : String) :
    TypeBody → Except DefinitionError History
  | .record listing => do
    let properties ← membersOf (PropertyEntry.property refs path) listing
    Scope.recordHistory (.ofPath path) properties description
  | .conditional selector sharedListing armListing => do
    let shared ← membersOf (PropertyEntry.property refs path) sharedListing
    let arms ← membersOf (InterpretationEntry.interpretation refs path) armListing
    Scope.conditionalHistory (.ofPath path) selector shared arms description
  | .enumeration underlying values =>
    match Primitive.named? underlying with
    | none => .error (.unknownType underlying (".".intercalate path))
    | some p => .ok (.constant (.enumeration ⟨.ofPath path, p, values, description⟩))
  | .tuple elements => do
    let elements ← elements.mapM (ElementEntry.element refs path)
    return .constant (.tuple ⟨.ofPath path, elements, description⟩)

/-- What a type says where it stands. -/
def Placement.history (refs : References) (p : Placement) : Except DefinitionError History :=
  p.body.history refs p.path p.description

/-- What an alias says under its key. -/
def AliasEntry.history (key : String) (e : AliasEntry) : Except DefinitionError History :=
  match Primitive.named? e.primitive with
  | none => .error (.unknownType e.primitive key)
  | some p => .ok (.constant (.alias ⟨.alias (Name.derive key), p, e.description⟩))

/-- The aliases and types of a catalogue in the order of declaration: their names, and what
each of them says. -/
def written (refs : References) (c : Catalogue) :
    List (QualifiedName × Except DefinitionError History) :=
  c.aliases.map (fun a => (.alias (Name.derive a.1), a.2.history a.1)) ++
    (placements [] c.types).map fun p => (p.name, p.history refs)

/-- A written type says something, namely this. -/
def saying (e : QualifiedName × History) : QualifiedName × Except DefinitionError History :=
  (e.1, .ok e.2)

/-! ### Taking in what is written -/

/-- Declare a type as it is written. -/
def take (r : Registry) (w : QualifiedName × Except DefinitionError History) :
    Except DefinitionError Registry := do
  r.inserted (w.1, ← w.2)

theorem Placement.declare_eq_take (refs : References) (r : Registry) (p : Placement) :
    p.declare refs r = take r (p.name, p.history refs) := by
  obtain ⟨parent, key, description, body⟩ := p
  cases body with
  | record listing =>
      simp only [Placement.declare, TypeBody.declare, Scope.declareRecord_eq,
        EStateM.kept_ofExcept_bind, Scope.kept_register, Scope.qualify_eq_ofPath, take, history,
        TypeBody.history, bind_assoc]
      rfl
  | conditional selector shared arms =>
      simp only [Placement.declare, TypeBody.declare, Scope.declareConditional_eq,
        EStateM.kept_ofExcept_bind, Scope.kept_register, Scope.qualify_eq_ofPath, take, history,
        TypeBody.history, bind_assoc]
      rfl
  | enumeration underlying values =>
      simp only [Placement.declare, TypeBody.declare, Scope.declareEnum, Scope.kept_register,
        Scope.qualify_eq_ofPath, take, history, TypeBody.history]
      cases Primitive.named? underlying <;> rfl
  | tuple elements =>
      simp only [Placement.declare, TypeBody.declare, Scope.declareTuple, Scope.kept_register,
        Scope.qualify_eq_ofPath, take, history, TypeBody.history, bind_assoc, pure_bind]
      rfl

theorem AliasEntry.declare_eq_take (r : Registry) (key : String) (e : AliasEntry) :
    e.declare key r = take r (.alias (Name.derive key), e.history key) := by
  simp only [AliasEntry.declare, AliasEntry.history, take]
  cases Primitive.named? e.primitive with
  | none => rfl
  | some p => exact EStateM.kept_bind_pure

/-- The types of a catalogue are declared as they are written, one after the other. -/
theorem declarations_eq_foldlM (c : Catalogue) :
    c.declarations = (c.written (.ofCatalogue c)).foldlM take .empty := by
  simp only [declarations, written, List.foldlM_append, List.foldlM_map, declareTypes_eq_foldlM,
    AliasEntry.declare_eq_take, ← Placement.declare_eq_take]

theorem foldlM_take_eq_ok_iff {l : List (QualifiedName × Except DefinitionError History)}
    {r r' : Registry} :
    l.foldlM take r = .ok r' ↔
      ∃ entries, l = entries.map saying ∧ r.insertAll entries = .ok r' := by
  induction l generalizing r with
  | nil => simp [Registry.insertAll]
  | cons w rest ih =>
      obtain ⟨n, history?⟩ := w
      simp only [List.foldlM_cons_eq_ok_iff, ih, take, Except.bind_eq_ok_iff]
      constructor
      · intro h
        obtain ⟨r₁, ⟨history, rfl, hfirst⟩, entries, rfl, hrest⟩ := h
        exact ⟨(n, history) :: entries, rfl, List.foldlM_cons_eq_ok_iff.mpr ⟨r₁, hfirst, hrest⟩⟩
      · intro h
        obtain ⟨_ | ⟨e, entries⟩, hl, h⟩ := h
        · cases hl
        obtain ⟨hfirst, rfl⟩ := List.cons.inj hl
        obtain ⟨rfl, rfl⟩ := Prod.mk.inj hfirst
        obtain ⟨r₁, hfirst, hrest⟩ := List.foldlM_cons_eq_ok_iff.mp h
        exact ⟨r₁, ⟨e.2, rfl, hfirst⟩, entries, rfl, hrest⟩

/-- The types of a catalogue can be declared if all of them say something and a registry
takes that in. -/
theorem declarations_eq_ok_iff :
    c.declarations = .ok r ↔ ∃ entries, c.written (.ofCatalogue c) = entries.map saying ∧
      Registry.empty.insertAll entries = .ok r := by
  rw [declarations_eq_foldlM, foldlM_take_eq_ok_iff]

/-- Loading takes three steps: the types, the auxiliary ones among them, and the endpoints. -/
theorem definition_eq_ok_iff {d : ApiDefinition} :
    c.definition = .ok d ↔ ∃ r, c.declarations = .ok r ∧
      c.auxiliary.foldlM (fun r reference => markAuxiliary (.ofCatalogue c) reference r) r =
        .ok d.registry ∧
      c.endpoints.mapM (EndpointEntry.endpoint (.ofCatalogue c)) = .ok d.endpoints ∧
      d.languages = Language.distinct (c.languages.getD Language.all) := by
  simp only [definition, Except.bind_eq_ok_iff, Except.pure_eq_ok_iff]
  constructor
  · intro h
    obtain ⟨r, hr, r', hauxiliary, endpoints, hendpoints, rfl⟩ := h
    exact ⟨r, hr, hauxiliary, hendpoints, rfl⟩
  · intro h
    obtain ⟨registry, endpoints, languages⟩ := d
    obtain ⟨r, hr, hauxiliary, hendpoints, rfl⟩ := h
    exact ⟨r, hr, registry, hauxiliary, endpoints, hendpoints, rfl⟩

/-- A loaded catalogue has registered what is written in it, and nothing else. -/
theorem entries_of_definition {d : ApiDefinition} (h : c.definition = .ok d) :
    ∃ entries, c.written (.ofCatalogue c) = entries.map saying ∧
      d.registry.types.entries.Perm entries ∧ d.registry.Apart := by
  obtain ⟨r, hr, hregistry, -⟩ := definition_eq_ok h
  obtain ⟨entries, hwritten, hinsert⟩ := declarations_eq_ok_iff.mp hr
  have hperm := Registry.entries_of_insertAll hinsert
  rw [show Registry.empty.types.entries = [] from rfl, List.append_nil] at hperm
  have hapart : r.Apart := Registry.Reached.empty.apart.insertAll hinsert
  rw [hregistry]
  exact ⟨entries, hwritten, hperm, hapart⟩

/-- A type of a loaded catalogue has the history that is written under its name. -/
theorem get?_of_definition {d : ApiDefinition} (h : c.definition = .ok d) {n : QualifiedName}
    {history : History} :
    d.registry.get? n = some history ↔ (n, .ok history) ∈ c.written (.ofCatalogue c) := by
  obtain ⟨entries, hwritten, hperm, -⟩ := entries_of_definition h
  have hinj : Function.Injective saying := fun _ _ heq =>
    Prod.ext (Prod.mk.inj heq).1 (Except.ok.inj (Prod.mk.inj heq).2)
  have hsaying : (n, .ok history) = saying (n, history) := rfl
  rw [Registry.get?, SortedMap.get?_eq_some_iff, hperm.mem_iff, hwritten, hsaying,
    List.mem_map_of_injective hinj]

/-! ### The registered names -/

/-- The names of the aliases and of the types of a catalogue, one for each entry. The nest of
a type is made of the keys around it, outermost first. -/
def writtenNames (c : Catalogue) : List QualifiedName :=
  c.aliases.map (fun a => .alias (Name.derive a.1)) ++
    (placements [] c.types).map fun p =>
      .declaration (p.parent.map Name.derive) (Name.derive p.key)

theorem Placement.name_eq (p : Placement) :
    p.name = .declaration (p.parent.map Name.derive) (Name.derive p.key) := by
  simp [name, path, QualifiedName.ofPath]

theorem map_fst_written (refs : References) (c : Catalogue) :
    (c.written refs).map Prod.fst = c.writtenNames := by
  simp [written, writtenNames, Placement.name_eq, Function.comp_def]

/-- The keys of the registry are the written names, each of them once. -/
theorem keys_of_definition {d : ApiDefinition} (h : c.definition = .ok d) :
    d.registry.types.keys.Perm c.writtenNames := by
  obtain ⟨entries, hwritten, hperm, -⟩ := entries_of_definition h
  rw [← map_fst_written (.ofCatalogue c), hwritten, List.map_map]
  exact hperm.map Prod.fst

/-- A listed type stands below the path it is listed at. -/
theorem exists_placement (parent : List String) {types : List (String × TypeEntry)}
    {t : String × TypeEntry} (ht : t ∈ types) :
    ∃ p ∈ placements parent types, p.parent = parent ∧ p.key = t.1 := by
  induction types with
  | nil => cases ht
  | cons first rest ih =>
      obtain ⟨key, description, body, nested⟩ := first
      rw [placements, placementsOf]
      rcases List.mem_cons.mp ht with rfl | ht
      · exact ⟨⟨parent, key, description, body⟩, by simp, rfl, rfl⟩
      · obtain ⟨p, hp, hparent⟩ := ih ht
        exact ⟨p, List.mem_append_right _ hp, hparent⟩

/-- **A loaded catalogue registers the names that are written in it.** These are the names of
its aliases, and for each type at any depth the name made of the keys around it and its own;
there are as many types as entries. A catalogue in which two entries have the same name, or
an alias and a top-level type derive to the same name, cannot be loaded. -/
theorem registered_names (c : Catalogue) :
    (∀ d, c.definition = .ok d →
      (∀ n, n ∈ d.registry.types.keys ↔ n ∈ c.writtenNames) ∧
      d.registry.size = c.aliases.length + (placements [] c.types).length) ∧
    (¬c.writtenNames.Nodup → ∃ e, c.definition = .error e) ∧
    ∀ a ∈ c.aliases, ∀ t ∈ c.types, Name.derive a.1 = Name.derive t.1 →
      ∃ e, c.definition = .error e := by
  refine ⟨fun d h => ?_, fun hrepeated => ?_, fun a ha t ht hname => ?_⟩
  · have hkeys := keys_of_definition h
    refine ⟨fun n => hkeys.mem_iff, ?_⟩
    have hlength := hkeys.length_eq
    simpa [SortedMap.keys, writtenNames, Registry.size, SortedMap.size] using hlength
  · cases h : c.definition with
    | error e => exact ⟨e, rfl⟩
    | ok d =>
        -- the keys of a registry are all different
        exact absurd ((keys_of_definition h).nodup_iff.mp d.registry.types.keys_nodup) hrepeated
  · cases h : c.definition with
    | error e => exact ⟨e, rfl⟩
    | ok d =>
        obtain ⟨-, -, -, hapart⟩ := entries_of_definition h
        obtain ⟨p, hp, hparent, hkey⟩ := exists_placement [] ht
        have hcontains : ∀ n ∈ c.writtenNames, d.registry.contains n = true := fun n hn =>
          SortedMap.mem_keys_iff.mp ((keys_of_definition h).mem_iff.mpr hn)
        have halias := hcontains _ (List.mem_append_left _ (List.mem_map_of_mem ha))
        have htype := hcontains _ (List.mem_append_right _ (List.mem_map_of_mem hp))
        rw [hparent, hkey, List.map_nil, ← hname] at htype
        exact absurd htype (Bool.eq_false_iff.mp (hapart _ _ rfl halias))

/-- A catalogue of aliases and types alone. -/
def ofTypes (aliases : Listing AliasEntry) (types : Listing TypeEntry) : Catalogue :=
  ⟨none, aliases, types, [], []⟩

/-- A type without members and with the given types inside it. -/
def TypeEntry.bare (nested : List (String × TypeEntry)) : TypeEntry :=
  .mk "" (.record []) nested

/-- The books register three names. Two spellings of one name exclude each other inside a
type, and so do an alias and a type of one name at the top. -/
theorem registered_names_books :
    (∃ d, books.definition = .ok d ∧ d.registry.size = 3 ∧
      .declaration [Name.derive "book"] (Name.derive "page") ∈ d.registry.types.keys) ∧
    (∃ e, (ofTypes [] [("Book", .bare [("PageNote", .bare []), ("page_note", .bare [])])]).definition =
      .error e) ∧
    ∃ e, (ofTypes [("page_id", ⟨"integer", ""⟩)] [("PageId", .bare [])]).definition = .error e := by
  obtain ⟨d, h⟩ : ∃ d, books.definition = .ok d := Except.isOk_iff_exists.mp (by decide +kernel)
  obtain ⟨hnames, hsize⟩ := (registered_names books).1 d h
  refine ⟨⟨d, h, hsize, (hnames _).mpr (by decide +kernel)⟩, ?_, ?_⟩
  · exact (registered_names _).2.1 (by decide +kernel)
  · exact (registered_names _).2.2 _ List.mem_cons_self _ List.mem_cons_self (by decide +kernel)

end Catalogue

end ApiChronicle
