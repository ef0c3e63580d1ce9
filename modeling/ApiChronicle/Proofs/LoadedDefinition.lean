import ApiChronicle.Proofs.ReferenceClosed
import ApiChronicle.Proofs.Snapshots
import ApiChronicle.Proofs.WrittenReferences

/-! # ApiChronicle.Proofs.LoadedDefinition

**The references of a loaded catalogue lead to declared types.**

A catalogue is walked through twice: once for its names, against which references are
resolved, and once to declare its types. Loading succeeds only if every reference means
something (`Placement.declare_eq_ok`, `EndpointEntry.types_of_endpoint`), and the collected
names are declared in the end (`DeclaredIn.mem_declarations_iff`), so a reference means the
declared type that its text leads to (`DeclaredIn.means_of_resolve`). A definition that was
loaded is therefore reference-closed (`definition_referenceClosed`), and has none of the
faults that `Proofs.ReferenceClosed` excludes.
-/

namespace ApiChronicle

/-! ### Uses of declared members -/

namespace Scope

variable {α : Type} {name : QualifiedName} {description : String} {run : Run} {d : Declaration}
  {t : TypeUse} {shared : List (Dated Property)} {arms : List (Dated Interpretation)}

theorem exists_of_mem_membersOf {window : Window} {key : α → String} {members : List (Dated α)}
    {places : List Nat} {shown : SortedMap String (Dated α)}
    (h : membersOf name window key members places = .ok shown) {x : Dated α}
    (hx : x ∈ shown.values) : ∃ d ∈ members, d.member = x.member := by
  obtain ⟨k, hk⟩ := SortedMap.mem_values_iff.mp hx
  obtain ⟨d, ⟨i, -, hd⟩, -, rfl⟩ := (get?_of_membersOf h).mp hk
  exact ⟨d, List.mem_of_getElem? hd, rfl⟩

theorem exists_of_uses_recordIn {properties : List (Dated Property)}
    (h : recordIn name properties description run = .ok d) (ht : d.Uses t) :
    ∃ p ∈ properties, p.member.type = t := by
  obtain ⟨shown, hshown, hd⟩ := Except.bind_eq_ok_iff.mp h
  obtain rfl := Except.pure_eq_ok_iff.mp hd
  cases ht with
  | property hp =>
      obtain ⟨p, hp, hmember⟩ := exists_of_mem_membersOf hshown hp
      exact ⟨p, hp, congrArg Property.type hmember⟩

theorem exists_of_uses_conditionalIn {selector : Selector}
    (h : conditionalIn name selector shared arms description run = .ok d) (ht : d.Uses t) :
    (∃ p ∈ shared, p.member.type = t) ∨ ∃ a ∈ arms, a.member.type = t := by
  obtain ⟨shownShared, shownArms, hshared, harms, rfl⟩ := conditionalIn_eq_ok h
  cases ht with
  | shared hp =>
      obtain ⟨p, hp, hmember⟩ := exists_of_mem_membersOf hshared hp
      exact Or.inl ⟨p, hp, congrArg Property.type hmember⟩
  | interpretation ha =>
      obtain ⟨a, ha, hmember⟩ := exists_of_mem_membersOf harms ha
      exact Or.inr ⟨a, ha, congrArg Interpretation.type hmember⟩

/-- A declared record adds a history that uses the types of its properties and no others. -/
theorem uses_of_declareRecord {s : Scope} {r r' : Registry} {spelling : String} {use : TypeUse}
    {properties : List (Dated Property)}
    (h : (s.declareRecord spelling properties description).run r = .ok use r') :
    ∃ history, (Registry.insert (s.qualify spelling) history).run r = .ok () r' ∧
      ∀ d ∈ history.declarations, ∀ t, d.Uses t → t ∈ properties.map (·.member.type) := by
  obtain ⟨windows, history, -, hhistory, hinsert, -⟩ := declareRecord_eq_ok h
  refine ⟨history, hinsert, fun d hd t ht => ?_⟩
  obtain ⟨run, -, hrun⟩ :=
    exists_run_of_mem_declarations (successive_liveRuns windows) hhistory hd
  obtain ⟨p, hp, rfl⟩ := exists_of_uses_recordIn hrun ht
  exact List.mem_map_of_mem hp

/-- A declared conditional adds a history that uses the types of its members and no others. -/
theorem uses_of_declareConditional {s : Scope} {r r' : Registry} {spelling : String}
    {use : TypeUse} {selector : Selector}
    (h : (s.declareConditional spelling selector shared arms description).run r = .ok use r') :
    ∃ history, (Registry.insert (s.qualify spelling) history).run r = .ok () r' ∧
      ∀ d ∈ history.declarations, ∀ t, d.Uses t →
        t ∈ shared.map (·.member.type) ++ arms.map (·.member.type) := by
  obtain ⟨sharedWindows, armWindows, history, -, -, hhistory, hinsert, -⟩ :=
    declareConditional_eq_ok h
  refine ⟨history, hinsert, fun d hd t ht => ?_⟩
  obtain ⟨run, -, hrun⟩ := exists_run_of_mem_declarations
    (successive_liveRuns (sharedWindows ++ armWindows)) hhistory hd
  rcases exists_of_uses_conditionalIn hrun ht with ⟨p, hp, rfl⟩ | ⟨a, ha, rfl⟩
  · exact List.mem_append_left _ (List.mem_map_of_mem hp)
  · exact List.mem_append_right _ (List.mem_map_of_mem ha)

/-- A type that is the same at all versions adds a history that uses what it uses. -/
theorem uses_of_register_constant {r r' : Registry} {use : TypeUse}
    (h : (register name (.constant d)).run r = .ok use r') (uses : List TypeUse)
    (huses : ∀ t, d.Uses t → t ∈ uses) :
    ∃ history, (Registry.insert name history).run r = .ok () r' ∧
      ∀ d ∈ history.declarations, ∀ t, d.Uses t → t ∈ uses := by
  refine ⟨_, (register_eq_ok h).1, fun d' hd t ht => huses t ?_⟩
  obtain rfl := List.mem_singleton.mp hd
  exact ht

/-- The scope around a path gives the type at its end the name of the path. -/
theorem qualify_eq_ofPath (parent : List String) (key : String) :
    (⟨parent.map Name.derive⟩ : Scope).qualify key = .ofPath (parent ++ [key]) := by
  simp [qualify, QualifiedName.ofPath]

end Scope

namespace Catalogue

variable {refs : References} {scope : List String}

/-! ### Written members -/

theorem PropertyModifier.type_foldl_apply (modifiers : List PropertyModifier)
    (d : Dated Property) :
    (modifiers.foldl PropertyModifier.apply d).member.type = d.member.type := by
  induction modifiers generalizing d with
  | nil => rfl
  | cons modifier rest ih =>
      rw [List.foldl_cons, ih]
      cases modifier <;> rfl

theorem InterpretationModifier.type_foldl_apply (modifiers : List InterpretationModifier)
    (d : Dated Interpretation) :
    (modifiers.foldl InterpretationModifier.apply d).member.type = d.member.type := by
  induction modifiers generalizing d with
  | nil => rfl
  | cons modifier rest ih =>
      rw [List.foldl_cons, ih]
      cases modifier <;> rfl

/-- The modifiers of a property leave its type alone. -/
theorem PropertyEntry.type_of_property {e : PropertyEntry} {key : String} {d : Dated Property}
    (h : e.property refs scope key = .ok d) : refs.resolve scope e.type = .ok d.member.type := by
  obtain ⟨t, ht, h⟩ := Except.bind_eq_ok_iff.mp h
  obtain rfl := Except.pure_eq_ok_iff.mp h
  rw [PropertyModifier.type_foldl_apply]
  exact ht

theorem InterpretationEntry.type_of_interpretation {e : InterpretationEntry} {key : String}
    {d : Dated Interpretation} (h : e.interpretation refs scope key = .ok d) :
    refs.resolve scope e.type = .ok d.member.type := by
  obtain ⟨t, ht, h⟩ := Except.bind_eq_ok_iff.mp h
  obtain rfl := Except.pure_eq_ok_iff.mp h
  rw [InterpretationModifier.type_foldl_apply]
  exact ht

theorem ElementEntry.type_of_element {e : ElementEntry} {x : TupleElement}
    (h : e.element refs scope = .ok x) : refs.resolve scope e.type = .ok x.type := by
  obtain ⟨t, ht, h⟩ := Except.bind_eq_ok_iff.mp h
  obtain rfl := Except.pure_eq_ok_iff.mp h
  exact ht

/-- The types of listed members are what their references mean, in order. -/
theorem mapM_resolve_of_membersOf {ε α : Type} {make : String → ε → Except DefinitionError α}
    (ref : ε → TypeRef) (type : α → TypeUse)
    (hmake : ∀ key e a, make key e = .ok a → refs.resolve scope (ref e) = .ok (type a))
    {listing : Listing (List ε)} {members : List α} (h : membersOf make listing = .ok members) :
    (listing.flatMap fun (_, entries) => entries.map ref).mapM (refs.resolve scope) =
      .ok (members.map type) := by
  have hresolve := List.mapM_map_eq_ok (fun x : String × ε => ref x.2) type
    (fun (key, e) a ha => hmake key e a ha) h
  simpa [List.map_flatMap, Function.comp_def] using hresolve

/-! ### One type -/

/-- An entry of a registry tells what a type is written to be: it has the name of the
type, all references of the type mean something, and its declarations use nothing else. -/
def Placement.ToldBy (refs : References) (p : Placement) (e : QualifiedName × History) : Prop :=
  e.1 = p.name ∧ ∃ uses, p.body.references.mapM (refs.resolve p.path) = .ok uses ∧
    ∀ d ∈ e.2.declarations, ∀ t, d.Uses t → t ∈ uses

/-- An entry of a registry tells what an alias is written to be: it has the name of the
alias, and one declaration for all versions. -/
def AliasEntry.ToldBy (a : String × AliasEntry) (e : QualifiedName × History) : Prop :=
  e.1 = .alias (Name.derive a.1) ∧ ∃ shape, e.2 = .constant (.alias shape)

/-- Declaring a type adds an entry that tells what is written. -/
theorem Placement.declare_eq_ok {p : Placement} {r r' : Registry} (h : p.declare refs r = .ok r') :
    ∃ e, p.ToldBy refs e ∧ (Registry.insert e.1 e.2).run r = .ok () r' := by
  obtain ⟨parent, key, description, body⟩ := p
  -- the references are resolved before anything is declared, and what is declared uses
  -- nothing but their meanings
  suffices htold : ∃ uses history, body.references.mapM (refs.resolve (parent ++ [key])) = .ok uses ∧
      (Registry.insert ((⟨parent.map Name.derive⟩ : Scope).qualify key) history).run r = .ok () r' ∧
      ∀ d ∈ history.declarations, ∀ t, d.Uses t → t ∈ uses by
    obtain ⟨uses, history, hreferences, hinsert, huses⟩ := htold
    rw [Scope.qualify_eq_ofPath] at hinsert
    exact ⟨(_, history), ⟨rfl, uses, hreferences, huses⟩, hinsert⟩
  cases body with
  | record listing =>
      obtain ⟨properties, hproperties, h⟩ := Except.bind_eq_ok_iff.mp h
      obtain ⟨use, hdeclare⟩ := EStateM.kept_eq_ok_iff.mp h
      obtain ⟨history, hinsert, huses⟩ := Scope.uses_of_declareRecord hdeclare
      have htypes := mapM_resolve_of_membersOf PropertyEntry.type
        (fun p => p.member.type) (fun _ _ _ => PropertyEntry.type_of_property) hproperties
      exact ⟨_, history, htypes, hinsert, huses⟩
  | conditional selector sharedListing armListing =>
      obtain ⟨shared, hshared, h⟩ := Except.bind_eq_ok_iff.mp h
      obtain ⟨arms, harms, h⟩ := Except.bind_eq_ok_iff.mp h
      obtain ⟨use, hdeclare⟩ := EStateM.kept_eq_ok_iff.mp h
      obtain ⟨history, hinsert, huses⟩ := Scope.uses_of_declareConditional hdeclare
      have hsharedTypes := mapM_resolve_of_membersOf PropertyEntry.type
        (fun p => p.member.type) (fun _ _ _ => PropertyEntry.type_of_property) hshared
      have harmTypes := mapM_resolve_of_membersOf InterpretationEntry.type
        (fun a => a.member.type) (fun _ _ _ => InterpretationEntry.type_of_interpretation) harms
      exact ⟨_, history, List.mapM_append_eq_ok hsharedTypes harmTypes, hinsert, huses⟩
  | enumeration underlying values =>
      simp only [Placement.declare, TypeBody.declare] at h
      split at h
      · cases h
      obtain ⟨use, hdeclare⟩ := EStateM.kept_eq_ok_iff.mp h
      obtain ⟨history, hinsert, huses⟩ := Scope.uses_of_register_constant hdeclare []
        fun t ht => by cases ht
      exact ⟨[], history, rfl, hinsert, huses⟩
  | tuple written =>
      obtain ⟨elements, helements, h⟩ := Except.bind_eq_ok_iff.mp h
      obtain ⟨use, hdeclare⟩ := EStateM.kept_eq_ok_iff.mp h
      obtain ⟨history, hinsert, huses⟩ := Scope.uses_of_register_constant hdeclare
        (elements.map TupleElement.type) fun t ht => by
          cases ht with
          | element he => exact List.mem_map_of_mem he
      have htypes := List.mapM_map_eq_ok ElementEntry.type TupleElement.type
        (fun _ _ => ElementEntry.type_of_element) helements
      exact ⟨_, history, htypes, hinsert, huses⟩

/-- Declaring an alias adds an entry that tells what is written. -/
theorem AliasEntry.declare_eq_ok {a : String × AliasEntry} {r r' : Registry}
    (h : a.2.declare a.1 r = .ok r') :
    ∃ e, AliasEntry.ToldBy a e ∧ (Registry.insert e.1 e.2).run r = .ok () r' := by
  unfold AliasEntry.declare at h
  split at h
  · cases h
  obtain ⟨use, hdeclare⟩ := EStateM.kept_eq_ok_iff.mp h
  obtain ⟨_, r₂, hinsert, h⟩ := EStateM.bind_eq_ok_iff.mp hdeclare
  cases h
  exact ⟨(_, _), ⟨rfl, _, rfl⟩, hinsert⟩

/-! ### All types -/

/-- The types of a registry are the aliases and the placements of the catalogue, each with its
history, and nothing else. -/
def DeclaredIn (c : Catalogue) (r : Registry) : Prop :=
  ∃ aliases types : List (QualifiedName × History),
    List.Forall₂ AliasEntry.ToldBy c.aliases aliases ∧
    List.Forall₂ (Placement.ToldBy (.ofCatalogue c)) (placements [] c.types) types ∧
    ∀ e, r.get? e.1 = some e.2 ↔ e ∈ aliases ∨ e ∈ types

theorem declarations_eq_ok {c : Catalogue} {r : Registry} (h : c.declarations = .ok r) :
    r.auxiliary = .empty ∧ c.DeclaredIn r := by
  obtain ⟨r₁, haliases, htypes⟩ := Except.bind_eq_ok_iff.mp h
  rw [declareTypes_eq_foldlM] at htypes
  obtain ⟨hnone, aliases, haliases, hget₁⟩ :=
    Registry.get?_of_foldlM (fun a _ _ hstep => AliasEntry.declare_eq_ok (a := a) hstep) haliases
  obtain ⟨hsame, types, htypes, hget⟩ :=
    Registry.get?_of_foldlM (fun p _ _ hstep => Placement.declare_eq_ok (p := p) hstep) htypes
  refine ⟨hsame.trans hnone, aliases, types, haliases, htypes, fun e => ?_⟩
  rw [hget, hget₁]
  simp [Registry.empty, Registry.get?]

namespace DeclaredIn

variable {c : Catalogue} {r : Registry}

/-- The key of an alias is that of one that is declared for all versions. -/
theorem exists_alias (h : c.DeclaredIn r) {key : String} (hkey : key ∈ c.aliases.map (·.1)) :
    ∃ shape, r.get? (.alias (Name.derive key)) = some (.constant (.alias shape)) := by
  obtain ⟨aliases, types, haliases, -, hget⟩ := h
  obtain ⟨a, ha, rfl⟩ := List.mem_map.mp hkey
  obtain ⟨⟨n, history⟩, he, rfl, shape, rfl⟩ := List.exists_mem_of_forall₂ haliases ha
  exact ⟨shape, (hget _).mpr (Or.inl he)⟩

/-- The names that were collected are those of the declarations. -/
theorem mem_declarations_iff (h : c.DeclaredIn r) {n : QualifiedName} (hkind : n.isAlias = false) :
    n ∈ (References.ofCatalogue c).declarations ↔ r.contains n = true := by
  obtain ⟨aliases, types, haliases, htypes, hget⟩ := h
  rw [Registry.contains_iff]
  constructor
  · intro hn
    obtain ⟨p, hp, rfl⟩ := (mem_ofTypes_iff [] c.types).mp hn
    obtain ⟨⟨n, history⟩, he, rfl, -⟩ := List.exists_mem_of_forall₂ htypes hp
    exact ⟨history, (hget _).mpr (Or.inr he)⟩
  · rintro ⟨history, hn⟩
    rcases (hget (n, history)).mp hn with he | he
    · obtain ⟨a, -, rfl, -⟩ := List.exists_mem_of_forall₂ haliases.flip he
      cases hkind
    · obtain ⟨p, hp, rfl, -⟩ := List.exists_mem_of_forall₂ htypes.flip he
      exact (mem_ofTypes_iff [] c.types).mpr ⟨p, hp, rfl⟩

theorem means_of_named (h : c.DeclaredIn r) {text : String} {t : TypeUse}
    (ht : (References.ofCatalogue c).named scope text = .ok t) :
    (TypeRef.named text).Means c r scope t := by
  obtain ⟨p, hp, rfl⟩ | ⟨hnone, hbehind⟩ := References.named_eq_ok_iff.mp ht
  · rw [← Primitive.keyword_of_named? hp]
    exact .primitive
  have hnokeyword := Primitive.ne_keyword_of_named? hnone
  obtain ⟨hkey, rfl⟩ | ⟨hkey, n, hfind, rfl⟩ := hbehind
  · obtain ⟨shape, hget⟩ := h.exists_alias hkey
    exact .alias hnokeyword hkey hget
  rw [segments_eq_steps] at hfind
  obtain ⟨around, hprefix, hplace, hknown, hinner⟩ :=
    exists_of_find?_candidates (steps_ne_nil text) hfind
  have hdeclared := (h.mem_declarations_iff hplace.1).mp (of_decide_eq_true hknown)
  refine .declaration hnokeyword hkey hprefix hplace hdeclared fun inner m hm hlength hmplace => ?_
  rw [← Bool.not_eq_true, ← h.mem_declarations_iff hmplace.1]
  exact of_decide_eq_false (hinner inner m hm hlength hmplace)

/-- A reference means what it says. -/
theorem means_of_resolve (h : c.DeclaredIn r) {ref : TypeRef} {t : TypeUse}
    (ht : (References.ofCatalogue c).resolve scope ref = .ok t) : ref.Means c r scope t := by
  induction ref generalizing t with
  | named text => exact h.means_of_named ht
  | array elements nullable ih =>
      obtain ⟨elements', helements, ht⟩ := Except.bind_eq_ok_iff.mp ht
      obtain rfl := Except.pure_eq_ok_iff.mp ht
      exact .array (ih helements)
  | map keys values nullable ihKeys ihValues =>
      obtain ⟨keys', hkeys, ht⟩ := Except.bind_eq_ok_iff.mp ht
      obtain ⟨values', hvalues, ht⟩ := Except.bind_eq_ok_iff.mp ht
      obtain rfl := Except.pure_eq_ok_iff.mp ht
      exact .map (ihKeys hkeys) (ihValues hvalues)

end DeclaredIn

/-- What a reference means is declared. -/
theorem TypeRef.Means.grounds {c : Catalogue} {r : Registry} {ref : TypeRef} {t : TypeUse}
    (h : ref.Means c r scope t) : r.Grounds t := by
  induction h with
  | primitive => exact .primitive
  | «alias» _ _ declared => exact .alias rfl declared
  | declaration _ _ _ place declared _ =>
      obtain ⟨history, hget⟩ := Registry.contains_iff.mp declared
      exact .declaration place.1 hget
  | array _ ih => exact .array ih
  | map _ _ ihKeys ihValues => exact .map ihKeys ihValues

theorem DeclaredIn.referenceClosed {c : Catalogue} {r : Registry} (h : c.DeclaredIn r) :
    r.ReferenceClosed := by
  obtain ⟨aliases, types, haliases, htypes, hget⟩ := id h
  constructor
  · intro n history hn d hd t ht
    rcases (hget (n, history)).mp hn with he | he
    · obtain ⟨a, -, -, shape, rfl⟩ := List.exists_mem_of_forall₂ haliases.flip he
      obtain rfl := List.mem_singleton.mp hd
      cases ht
    · obtain ⟨p, -, -, uses, huses, hwritten⟩ := List.exists_mem_of_forall₂ htypes.flip he
      obtain ⟨ref, -, href⟩ := (List.mem_of_mapM_eq_ok huses).2 t (hwritten d hd t ht)
      exact (h.means_of_resolve href).grounds
  · intro n history halias hn
    rcases (hget (n, history)).mp hn with he | he
    · obtain ⟨a, -, -, shape, rfl⟩ := List.exists_mem_of_forall₂ haliases.flip he
      exact ⟨shape, rfl⟩
    · obtain ⟨p, -, rfl, -⟩ := List.exists_mem_of_forall₂ htypes.flip he
      rw [p.isAlias_name] at halias
      cases halias

/-! ### Auxiliary types and endpoints -/

theorem markAuxiliary_eq_ok {reference : String} {r r' : Registry}
    (h : markAuxiliary refs reference r = .ok r') :
    ∃ t n, refs.named [] reference = .ok t ∧ (Registry.markAuxiliary n).run r = .ok () r' := by
  obtain ⟨t, ht, h⟩ := Except.bind_eq_ok_iff.mp h
  refine ⟨t, ?_⟩
  split at h
  · obtain ⟨_, hmark⟩ := EStateM.kept_eq_ok_iff.mp h
    exact ⟨_, ht, hmark⟩
  · obtain ⟨_, hmark⟩ := EStateM.kept_eq_ok_iff.mp h
    exact ⟨_, ht, hmark⟩
  · cases h

/-- Marking auxiliary types leaves the declared types as they are. All references mean
something, and only declared types become auxiliary. -/
theorem foldlM_markAuxiliary_eq_ok {references : List String} {r r' : Registry}
    (h : references.foldlM (fun r reference => markAuxiliary refs reference r) r = .ok r') :
    ∃ auxiliary, r' = { r with auxiliary := auxiliary } ∧
      (∀ n, auxiliary.contains n = true →
        r.auxiliary.contains n = true ∨ r.contains n = true) ∧
      ∀ reference ∈ references, ∃ t, refs.named [] reference = .ok t := by
  induction references generalizing r with
  | nil =>
      obtain rfl := Except.ok.inj h
      exact ⟨_, rfl, fun _ hn => Or.inl hn, fun _ hmem => absurd hmem List.not_mem_nil⟩
  | cons reference rest ih =>
      obtain ⟨r₁, hfirst, hrest⟩ := List.foldlM_cons_eq_ok_iff.mp h
      obtain ⟨t, n, ht, hmark⟩ := markAuxiliary_eq_ok hfirst
      obtain ⟨hcontains, rfl⟩ := Registry.markAuxiliary_eq_ok_iff.mp hmark
      obtain ⟨auxiliary, rfl, hdeclared, hmeant⟩ := ih hrest
      refine ⟨auxiliary, rfl, fun m hm => ?_, List.forall_mem_cons.mpr ⟨⟨t, ht⟩, hmeant⟩⟩
      rcases hdeclared m hm with hm | hm
      · rcases SortedMap.contains_insert.mp hm with rfl | hm
        · exact Or.inr hcontains
        · exact Or.inl hm
      · exact Or.inr hm

/-- What is made from the meanings of references, in a run, has those types. -/
theorem mapM_resolve_of_mapM {α β : Type} (ref : α → TypeRef) (make : α → TypeUse → β)
    (type : β → TypeUse) (hmake : ∀ a t, type (make a t) = t) {l : List α} {bs : List β}
    (h : (l.mapM fun a => do return make a (← refs.resolve scope (ref a))) = .ok bs) :
    (l.map ref).mapM (refs.resolve scope) = .ok (bs.map type) := by
  refine List.mapM_map_eq_ok ref type (fun a b hstep => ?_) h
  obtain ⟨t, ht, hstep⟩ := Except.bind_eq_ok_iff.mp hstep
  obtain rfl := Except.pure_eq_ok_iff.mp hstep
  rw [hmake]
  exact ht

/-- The uses of an endpoint are what its references mean, in order. -/
theorem EndpointEntry.types_of_endpoint {e : EndpointEntry} {x : Endpoint}
    (h : e.endpoint refs = .ok x) : e.references.mapM (refs.resolve []) = .ok x.types := by
  obtain ⟨pathParameters, hpath, h⟩ := Except.bind_eq_ok_iff.mp h
  obtain ⟨queryParameters, hquery, h⟩ := Except.bind_eq_ok_iff.mp h
  obtain ⟨schemas, hschemas, h⟩ := Except.bind_eq_ok_iff.mp h
  obtain rfl := Except.pure_eq_ok_iff.mp h
  have hpathTypes := mapM_resolve_of_mapM (fun p : String × ParameterEntry => p.2.type)
    (fun p t => PathParameter.make p.1 t p.2.description) PathParameter.type (fun _ _ => rfl) hpath
  have hqueryTypes := mapM_resolve_of_mapM (fun p : String × ParameterEntry => p.2.type)
    (fun p t => QueryParameter.make p.1 t p.2.description p.2.optional) QueryParameter.type
    (fun _ _ => rfl) hquery
  have hschemaTypes := mapM_resolve_of_mapM (fun p : Version × TypeRef => p.2)
    (fun p t => (p.1, t)) Prod.snd (fun _ _ => rfl) hschemas
  have hwritten : ((e.schema.map fun type => (Version.classic, type)).toList ++ e.schemas).map
      Prod.snd = e.schema.toList ++ e.schemas.map Prod.snd := by
    cases e.schema <;> simp
  rw [hwritten] at hschemaTypes
  exact List.mapM_append_eq_ok (List.mapM_append_eq_ok hpathTypes hqueryTypes) hschemaTypes

/-! ### The whole catalogue -/

/-- Loading a catalogue declares its types, marks auxiliary ones among them, and gives its
endpoints the uses their references mean. -/
theorem definition_eq_ok {c : Catalogue} {d : ApiDefinition} (h : c.definition = .ok d) :
    ∃ r, c.declarations = .ok r ∧ d.registry = { r with auxiliary := d.registry.auxiliary } ∧
      c.DeclaredIn d.registry ∧
      (∀ n, d.registry.auxiliary.contains n = true → d.registry.contains n = true) ∧
      (∀ reference ∈ c.auxiliary, ∃ t, (References.ofCatalogue c).named [] reference = .ok t) ∧
      List.Forall₂ (fun e x => e.references.mapM ((References.ofCatalogue c).resolve []) =
        .ok x.types) c.endpoints d.endpoints := by
  obtain ⟨r, hr, h⟩ := Except.bind_eq_ok_iff.mp h
  obtain ⟨r', hauxiliary, h⟩ := Except.bind_eq_ok_iff.mp h
  obtain ⟨endpoints, hendpoints, h⟩ := Except.bind_eq_ok_iff.mp h
  obtain rfl := Except.pure_eq_ok_iff.mp h
  obtain ⟨auxiliary, rfl, hdeclared, hmeant⟩ := foldlM_markAuxiliary_eq_ok hauxiliary
  obtain ⟨hnone, hin⟩ := declarations_eq_ok hr
  refine ⟨r, hr, rfl, hin, fun n hn => (hdeclared n hn).resolve_left ?_, hmeant, ?_⟩
  · simp [hnone, SortedMap.contains]
  · exact (List.mapM_eq_ok_iff.mp hendpoints).imp fun _ _ => EndpointEntry.types_of_endpoint

/-- Every reference of a loaded catalogue means something, and what it says. -/
theorem exists_means_of_mem_references {c : Catalogue} {d : ApiDefinition}
    (h : c.definition = .ok d) {x : List String × TypeRef} (hx : x ∈ c.references) :
    ∃ t, (References.ofCatalogue c).resolve x.1 x.2 = .ok t ∧ x.2.Means c d.registry x.1 t := by
  obtain ⟨-, -, -, hin, -, hauxiliary, hendpoints⟩ := definition_eq_ok h
  suffices hmeant : ∃ t, (References.ofCatalogue c).resolve x.1 x.2 = .ok t by
    obtain ⟨t, ht⟩ := hmeant
    exact ⟨t, ht, hin.means_of_resolve ht⟩
  rcases List.mem_append.mp hx with hx | hx
  · obtain ⟨p, hp, hx⟩ := List.mem_flatMap.mp hx
    obtain ⟨ref, href, rfl⟩ := List.mem_map.mp hx
    obtain ⟨aliases, types, -, htypes, -⟩ := hin
    obtain ⟨e, -, -, uses, huses, -⟩ := List.exists_mem_of_forall₂ htypes hp
    obtain ⟨t, -, ht⟩ := (List.mem_of_mapM_eq_ok huses).1 ref href
    exact ⟨t, ht⟩
  obtain ⟨ref, href, rfl⟩ := List.mem_map.mp hx
  rcases List.mem_append.mp href with href | href
  · obtain ⟨e, he, href⟩ := List.mem_flatMap.mp href
    obtain ⟨y, -, huses⟩ := List.exists_mem_of_forall₂ hendpoints he
    obtain ⟨t, -, ht⟩ := (List.mem_of_mapM_eq_ok huses).1 ref href
    exact ⟨t, ht⟩
  · obtain ⟨reference, hreference, rfl⟩ := List.mem_map.mp href
    exact hauxiliary reference hreference

theorem referenceClosed_of_definition {c : Catalogue} {d : ApiDefinition}
    (h : c.definition = .ok d) : d.ReferenceClosed := by
  obtain ⟨-, -, -, hin, hdeclared, -, hendpoints⟩ := definition_eq_ok h
  refine ⟨hin.referenceClosed, fun e he t ht => ?_, hdeclared⟩
  obtain ⟨entry, -, huses⟩ := List.exists_mem_of_forall₂ hendpoints.flip he
  obtain ⟨ref, -, href⟩ := (List.mem_of_mapM_eq_ok huses).2 t ht
  exact (hin.means_of_resolve href).grounds

/-- **A loaded catalogue is reference-closed.** Whatever is referred to in a property, a
shared property, an interpretation, an element, a parameter, a response or as auxiliary, at
any depth, means what it says, and every name in its meaning is declared, that of an alias as
an alias for all versions; the same holds of every use in the definition. So its endpoints never miss the type of their IDs, and
no build fails at a type that is not declared or not of its kind. -/
theorem definition_referenceClosed {c : Catalogue} {d : ApiDefinition}
    (h : c.definition = .ok d) :
    (∀ x ∈ c.references, ∃ t, (References.ofCatalogue c).resolve x.1 x.2 = .ok t ∧
      x.2.Means c d.registry x.1 t ∧ d.registry.Grounds t ∧
      ∀ n, t.Names n → ∃ history, d.registry.get? n = some history ∧
        (n.isAlias = true → ∃ shape, history = .constant (.alias shape))) ∧
    d.ReferenceClosed ∧
    (∀ e ∈ d.endpoints, ∀ n, e.queries d.registry ≠ .error (.missingDeclaration n)) ∧
    ∀ s error, d.build s = .error error → ¬error.Dangling := by
  have hclosed := referenceClosed_of_definition h
  refine ⟨fun x hx => ?_, hclosed, fun e he n => hclosed.queries_ne_missing he n,
    fun s error herror => hclosed.build_not_dangling herror⟩
  obtain ⟨t, ht, hmeans⟩ := exists_means_of_mem_references h hx
  refine ⟨t, ht, hmeans, hmeans.grounds, fun n hn => ?_⟩
  obtain ⟨history, hget⟩ := Registry.contains_iff.mp (hmeans.grounds.contains hn)
  exact ⟨history, hget, fun halias => hclosed.registry.aliases n history halias hget⟩

/-- A property that is required at every version. -/
def PropertyEntry.always (type : TypeRef) : PropertyEntry :=
  ⟨type, none, "", false, none, false, false, false, false, none, none⟩

/-- Books with pages inside them; a page refers to its book from the inside, and a book to
its pages by the short name. -/
def books : Catalogue where
  languages := none
  aliases := [("book_id", ⟨"integer_id", ""⟩)]
  types :=
    [("Book", .mk "" (.record
        [("id", [.always (.named "book_id")]),
         ("pages", [.always (.array (.named "Page") false)])])
      [("Page", .mk "" (.record
          [("book", [.always (.named "Book")]),
           ("notes", [.always (.map (.named "book_id") (.named "Book.Page") true)])])
        [])])]
  endpoints :=
    [{ name := "Books"
       path := "/books"
       summary := ""
       cacheSeconds := none
       security := []
       localized := false
       since := none
       stop := none
       pathParameters := []
       queryParameters := []
       schema := some (.named "Book")
       schemas := []
       index := some ⟨"id", [.ids, .byId]⟩ }]
  auxiliary := ["Book.Page"]

/-- A book that refers to pages means those inside it. The references of the books are all
grounded, and every build ends without a dangling name. -/
theorem definition_referenceClosed_books :
    ∃ d, books.definition = .ok d ∧ books.references.length = 6 ∧
      (TypeRef.array (.named "Page") false).Means books d.registry ["Book"]
        (.array (.declaration (.ofPath ["Book", "Page"])) false) ∧
      (∀ x ∈ books.references, ∃ t, (References.ofCatalogue books).resolve x.1 x.2 = .ok t ∧
        x.2.Means books d.registry x.1 t ∧ d.registry.Grounds t) ∧
      ∀ s error, d.build s = .error error → ¬error.Dangling := by
  obtain ⟨d, h⟩ : ∃ d, books.definition = .ok d := Except.isOk_iff_exists.mp (by decide +kernel)
  obtain ⟨hreferences, -, -, hbuild⟩ := definition_referenceClosed h
  refine ⟨d, h, rfl, ?_, fun x hx => ?_, hbuild⟩
  · obtain ⟨t, ht, hmeans, -⟩ :=
      hreferences (["Book"], .array (.named "Page") false) (by decide +kernel)
    have hpages : (References.ofCatalogue books).resolve ["Book"] (.array (.named "Page") false) =
        .ok (.array (.declaration (.ofPath ["Book", "Page"])) false) := by decide +kernel
    obtain rfl := Except.ok.inj (ht.symm.trans hpages)
    exact hmeans
  · obtain ⟨t, ht, hmeans, hgrounds, -⟩ := hreferences x hx
    exact ⟨t, ht, hmeans, hgrounds⟩

end Catalogue

end ApiChronicle
