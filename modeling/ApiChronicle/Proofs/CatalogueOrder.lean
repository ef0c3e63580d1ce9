import ApiChronicle.Proofs.AddedTypes
import ApiChronicle.Proofs.MemberOrder

/-! # ApiChronicle.Proofs.CatalogueOrder

**Catalogues in another order** declare the same types.

What a catalogue lists by key it may list in another order, at any depth, and so it may the
entries of one member (`Reordered`). References are resolved against names of which only the
presence counts, so they mean the same (`named_of_reordered`). What each type says is the same
(`TypeBody.history_of_reordered`), so the same is written in another order
(`written_of_reordered`), and a registry takes that in all the same
(`declarations_of_reordered`).
-/

namespace ApiChronicle.Catalogue

variable {refs refs' : References} {c c' : Catalogue}

/-! ### Reordered catalogues -/

/-- The same members. The keys may come in another order, and so may the entries of a key. -/
def MembersReordered {ε : Type} (members members' : Listing (List ε)) : Prop :=
  List.Reordered (fun m m' => m.1 = m'.1 ∧ m.2.Perm m'.2) members members'

/-- The same body with its members in another order. The values of an enumeration and the
elements of a tuple are not listed by key. -/
inductive TypeBody.Reordered : TypeBody → TypeBody → Prop
  | record {properties properties' : Listing (List PropertyEntry)}
      (members : MembersReordered properties properties') :
      TypeBody.Reordered (.record properties) (.record properties')
  | conditional {selector : Selector} {shared shared' : Listing (List PropertyEntry)}
      {arms arms' : Listing (List InterpretationEntry)}
      (sharedMembers : MembersReordered shared shared') (armMembers : MembersReordered arms arms') :
      TypeBody.Reordered (.conditional selector shared arms) (.conditional selector shared' arms')
  | enumeration {underlying : String} {values : List EnumValue} :
      TypeBody.Reordered (.enumeration underlying values) (.enumeration underlying values)
  | tuple {elements : List ElementEntry} : TypeBody.Reordered (.tuple elements) (.tuple elements)

/-- The same types in another order, and so inside each of them. -/
inductive TypesReordered : Listing TypeEntry → Listing TypeEntry → Prop
  | nil : TypesReordered [] []
  | cons {key description : String} {body body' : TypeBody}
      {nested nested' rest rest' : Listing TypeEntry} (members : body.Reordered body')
      (inside : TypesReordered nested nested') (behind : TypesReordered rest rest') :
      TypesReordered ((key, .mk description body nested) :: rest)
        ((key, .mk description body' nested') :: rest')
  | swap (first second : String × TypeEntry) (rest : Listing TypeEntry) :
      TypesReordered (first :: second :: rest) (second :: first :: rest)
  | trans {types types' types'' : Listing TypeEntry} (before : TypesReordered types types')
      (after : TypesReordered types' types'') : TypesReordered types types''

/-- The same endpoint with its parameters in another order. -/
structure EndpointEntry.Reordered (e e' : EndpointEntry) : Prop where
  path : e.pathParameters.Perm e'.pathParameters
  query : e.queryParameters.Perm e'.queryParameters
  other : e' = { e with
    pathParameters := e'.pathParameters
    queryParameters := e'.queryParameters }

/-- The same catalogue with everything that it lists by key in another order. -/
structure Reordered (c c' : Catalogue) : Prop where
  languages : c.languages = c'.languages
  aliases : c.aliases.Perm c'.aliases
  types : TypesReordered c.types c'.types
  endpoints : List.Forall₂ EndpointEntry.Reordered c.endpoints c'.endpoints
  auxiliary : c.auxiliary = c'.auxiliary

theorem MembersReordered.refl {ε : Type} (members : Listing (List ε)) :
    MembersReordered members members :=
  .of_perm (fun _ => ⟨rfl, .refl _⟩) (.refl _)

theorem MembersReordered.symm {ε : Type} {members members' : Listing (List ε)}
    (h : MembersReordered members members') : MembersReordered members' members :=
  List.Reordered.symm (fun _ _ hm => ⟨hm.1.symm, hm.2.symm⟩) h

theorem TypeBody.Reordered.refl (body : TypeBody) : body.Reordered body := by
  cases body with
  | record properties => exact .record (.refl _)
  | conditional selector shared arms => exact .conditional (.refl _) (.refl _)
  | enumeration underlying values => exact .enumeration
  | tuple elements => exact .tuple

theorem TypeBody.Reordered.symm {body body' : TypeBody} (h : body.Reordered body') :
    body'.Reordered body := by
  cases h with
  | record members => exact .record members.symm
  | conditional sharedMembers armMembers => exact .conditional sharedMembers.symm armMembers.symm
  | enumeration => exact .enumeration
  | tuple => exact .tuple

theorem TypesReordered.refl : ∀ types : Listing TypeEntry, TypesReordered types types
  | [] => .nil
  | (_, .mk _ body nested) :: rest => .cons (.refl body) (refl nested) (refl rest)

theorem TypesReordered.of_perm {types types' : Listing TypeEntry} (h : types.Perm types') :
    TypesReordered types types' := by
  induction h with
  | nil => exact .nil
  | cons t _ ih =>
      obtain ⟨key, description, body, nested⟩ := t
      exact .cons (.refl body) (.refl nested) ih
  | swap first second rest => exact .swap second first rest
  | trans _ _ ih ih' => exact ih.trans ih'

theorem TypesReordered.symm {types types' : Listing TypeEntry} (h : TypesReordered types types') :
    TypesReordered types' types := by
  induction h with
  | nil => exact .nil
  | cons members _ _ ihInside ihBehind => exact .cons members.symm ihInside ihBehind
  | swap first second rest => exact .swap second first rest
  | trans _ _ ih ih' => exact ih'.trans ih

theorem EndpointEntry.Reordered.symm {e e' : EndpointEntry} (h : e.Reordered e') :
    e'.Reordered e where
  path := h.path.symm
  query := h.query.symm
  other := by rw [h.other]

theorem Reordered.symm (h : c.Reordered c') : c'.Reordered c where
  languages := h.languages.symm
  aliases := h.aliases.symm
  types := h.types.symm
  endpoints := h.endpoints.flip.imp fun _ _ he => he.symm
  auxiliary := h.auxiliary.symm

/-! ### What is written in another order -/

theorem membersOf_of_reordered {ε α : Type} {make : String → ε → Except DefinitionError α}
    {members members' : Listing (List ε)} (h : MembersReordered members members') {xs : List α}
    (hxs : membersOf make members = .ok xs) :
    ∃ xs', membersOf make members' = .ok xs' ∧ xs.Perm xs' := by
  refine List.mapM_of_perm (List.Reordered.flatMap_perm (fun m m' hm => ?_) h) hxs
  obtain ⟨key, entries⟩ := m
  obtain ⟨key', entries'⟩ := m'
  obtain ⟨rfl, hentries⟩ := hm
  exact hentries.map _

/-- A type says the same with its members in another order. -/
theorem TypeBody.history_of_reordered {body body' : TypeBody} (h : body.Reordered body')
    (path : List String) (description : String) :
    Except.Entails (body.history refs path description) (body'.history refs path description) := by
  cases h with
  | record members =>
      intro history h
      obtain ⟨properties, hproperties, h⟩ := Except.bind_eq_ok_iff.mp h
      obtain ⟨properties', hproperties', hperm⟩ := membersOf_of_reordered members hproperties
      exact Except.bind_eq_ok_iff.mpr
        ⟨properties', hproperties', Scope.recordHistory_of_perm _ _ hperm history h⟩
  | conditional sharedMembers armMembers =>
      intro history h
      obtain ⟨shared, hshared, h⟩ := Except.bind_eq_ok_iff.mp h
      obtain ⟨arms, harms, h⟩ := Except.bind_eq_ok_iff.mp h
      obtain ⟨shared', hshared', hpermShared⟩ := membersOf_of_reordered sharedMembers hshared
      obtain ⟨arms', harms', hpermArms⟩ := membersOf_of_reordered armMembers harms
      exact Except.bind_eq_ok_iff.mpr ⟨shared', hshared', Except.bind_eq_ok_iff.mpr ⟨arms', harms',
        Scope.conditionalHistory_of_perm _ _ _ hpermShared hpermArms history h⟩⟩
  | enumeration => exact .refl _
  | tuple => exact .refl _

/-- Two writings have the same name, and the second one says what the first one says. -/
def Agree (w w' : QualifiedName × Except DefinitionError History) : Prop :=
  w.1 = w'.1 ∧ Except.Entails w.2 w'.2

theorem Agree.refl (w : QualifiedName × Except DefinitionError History) : Agree w w :=
  ⟨rfl, .refl _⟩

theorem Agree.trans {w w' w'' : QualifiedName × Except DefinitionError History} (h : Agree w w')
    (h' : Agree w' w'') : Agree w w'' :=
  ⟨h.1.trans h'.1, h.2.trans h'.2⟩

/-- A type as it is written: its name, and what it says. -/
def Placement.writing (refs : References) (p : Placement) :
    QualifiedName × Except DefinitionError History :=
  (p.name, p.history refs)

/-- Types in another order are written in another order. -/
theorem writings_of_reordered (refs : References) {types types' : Listing TypeEntry}
    (h : TypesReordered types types') (parent : List String) :
    List.Reordered Agree ((placements parent types).map (Placement.writing refs))
      ((placements parent types').map (Placement.writing refs)) := by
  induction h generalizing parent with
  | nil => exact ⟨[], .nil, .refl _⟩
  | @cons key description body body' nested nested' rest rest' members _ _ ihInside ihBehind =>
      have hself : Agree (Placement.writing refs ⟨parent, key, description, body⟩)
          (Placement.writing refs ⟨parent, key, description, body'⟩) :=
        ⟨rfl, TypeBody.history_of_reordered members _ _⟩
      simp only [placements, placementsOf, List.map_append]
      exact ((ihInside _).append ⟨_, .cons hself .nil, .refl _⟩).append (ihBehind _)
  | swap first second rest =>
      refine .of_perm Agree.refl (List.Perm.map _ ?_)
      simp only [placements]
      exact List.perm_append_comm_assoc _ _ _
  | trans _ _ ih ih' => exact (ih parent).trans (ih' parent) fun _ _ _ => Agree.trans

/-! ### References -/

/-- What a text means depends only on which aliases and types there are. -/
theorem References.named_congr (haliases : ∀ a, a ∈ refs.aliases ↔ a ∈ refs'.aliases)
    (hdeclarations : ∀ n, n ∈ refs.declarations ↔ n ∈ refs'.declarations) :
    refs.named = refs'.named := by
  funext scope reference
  simp only [named, haliases, hdeclarations]

theorem named_of_reordered (h : c.Reordered c') :
    (References.ofCatalogue c).named = (References.ofCatalogue c').named := by
  have haliases : (c.aliases.map (·.1)).Perm (c'.aliases.map (·.1)) := h.aliases.map _
  have hnames : ((placements [] c.types).map Placement.name).Perm
      ((placements [] c'.types).map Placement.name) := by
    have hwritings := (writings_of_reordered (.ofCatalogue c) h.types []).map_perm
      (f := Prod.fst) (g := Prod.fst) fun _ _ hw => hw.1
    rwa [List.map_map, List.map_map] at hwritings
  refine References.named_congr (fun _ => haliases.mem_iff) fun n => ?_
  simp only [References.ofCatalogue, mem_ofTypes_iff, ← List.mem_map]
  exact hnames.mem_iff

theorem keeps_of_reordered (h : c.Reordered c') (scope : List String) :
    (References.ofCatalogue c).Keeps (.ofCatalogue c') scope :=
  References.keeps_of_named fun reference => by
    rw [named_of_reordered h]
    exact .refl _

/-! ### Types -/

/-- What is written is the same in another order. -/
theorem written_of_reordered (h : c.Reordered c') :
    List.Reordered Agree (c.written (.ofCatalogue c)) (c'.written (.ofCatalogue c')) := by
  refine List.Reordered.append (.of_perm Agree.refl (h.aliases.map _)) ?_
  have htypes := writings_of_reordered (.ofCatalogue c) h.types []
  have hkept : List.Reordered Agree
      ((placements [] c'.types).map (Placement.writing (.ofCatalogue c)))
      ((placements [] c'.types).map (Placement.writing (.ofCatalogue c'))) := by
    refine (List.Reordered.of_perm (R := Eq) (fun _ => rfl) (.refl _)).map fun p p' hp => ?_
    obtain rfl := hp
    exact ⟨rfl, Placement.history_entails (keeps_of_reordered h p.path)⟩
  exact htypes.trans hkept fun _ _ _ => Agree.trans

/-- If everything says something, it still does in another order. -/
theorem sayings_of_reordered {entries : List (QualifiedName × History)}
    {l : List (QualifiedName × Except DefinitionError History)}
    (h : List.Reordered Agree (entries.map saying) l) :
    ∃ entries', l = entries'.map saying ∧ entries.Perm entries' := by
  have hsaid : List.Reordered (fun e w => w = saying e) entries (entries.map saying) :=
    ⟨_, List.forall₂_map_right_iff.mpr (List.forall₂_same.mpr fun _ _ => rfl), .refl _⟩
  have hl : List.Reordered (fun e w => w = saying e) entries l :=
    hsaid.trans h fun e w w' hw hagree => by
      subst hw
      exact Prod.ext hagree.1.symm (hagree.2 e.2 rfl)
  have hentries : List.Reordered (fun w e => w = saying e) l entries := hl.symm fun _ _ => id
  obtain ⟨entries', hentries', hperm⟩ := hentries
  rw [← List.forall₂_map_right_iff (f := saying), List.forall₂_eq_eq_eq] at hentries'
  exact ⟨entries', hentries', hperm.symm⟩

/-- The types are declared alike. -/
theorem declarations_of_reordered (h : c.Reordered c') :
    Except.Entails c.declarations c'.declarations := by
  intro r hr
  obtain ⟨entries, hwritten, hinsert⟩ := declarations_eq_ok_iff.mp hr
  obtain ⟨entries', hwritten', hperm⟩ := sayings_of_reordered (hwritten ▸ written_of_reordered h)
  exact declarations_eq_ok_iff.mpr
    ⟨entries', hwritten', Registry.insertAll_of_perm hperm hinsert⟩

end ApiChronicle.Catalogue
