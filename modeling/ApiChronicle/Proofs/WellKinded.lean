import ApiChronicle.Api
import ApiChronicle.Proofs.Traversal

/-! # ApiChronicle.Proofs.WellKinded

**Mentions that fit their names**, and when a resolution succeeds.

An alias is mentioned under the name of an alias and any other type under the name
of a declaration: scopes and catalogues make no other mentions. It matters because
the two routes of the resolver share their marks. A name that has been marked as a
declaration is skipped when it is mentioned as an alias, whatever its shape, so
without the fit a fault could hide behind an earlier mark.

For well-kinded mentions it cannot. `Resolves.isOk_iff` says that a resolution
succeeds exactly if every reachable name is available; cycles play no part in it.
-/

namespace ApiChronicle

/-! ### Well-kinded definitions -/

/-- The name is one of the kind that is mentioned. -/
def Mention.WellKinded : Mention → Prop
  | .alias n => n.isAlias = true
  | .declaration n => n.isAlias = false

instance : DecidablePred Mention.WellKinded
  | .alias n => inferInstanceAs (Decidable (n.isAlias = true))
  | .declaration n => inferInstanceAs (Decidable (n.isAlias = false))

/-- Every name in the use is of its kind. -/
def TypeUse.WellKinded (t : TypeUse) : Prop := ∀ m ∈ t.mentions, m.WellKinded

instance : DecidablePred TypeUse.WellKinded :=
  fun t => inferInstanceAs (Decidable (∀ m ∈ t.mentions, m.WellKinded))

/-- Every member has a well-kinded type. -/
def Declaration.WellKinded (d : Declaration) : Prop := ∀ t, d.Uses t → t.WellKinded

theorem Declaration.wellKinded_iff {d : Declaration} :
    d.WellKinded ↔ ∀ m ∈ Shape.mentions d.resolved, m.WellKinded := by
  constructor
  · intro h m hm
    obtain ⟨t, ht, hm⟩ := Declaration.mem_mentions_resolved.mp hm
    exact h t ht m hm
  · intro h t ht m hm
    exact h m (Declaration.mem_mentions_resolved.mpr ⟨t, ht, hm⟩)

instance : DecidablePred Declaration.WellKinded :=
  fun _ => decidable_of_iff _ Declaration.wellKinded_iff.symm

/-- The declarations of a type, earliest first. -/
def History.declarations : History → List Declaration
  | .constant d => [d]
  | .evolving t => t.entries.map Entry.value

/-- Every declaration of every type is well-kinded. -/
def Registry.WellKinded (r : Registry) : Prop :=
  ∀ e ∈ r.types.entries, ∀ d ∈ e.2.declarations, d.WellKinded

instance : DecidablePred Registry.WellKinded := fun r =>
  inferInstanceAs (Decidable (∀ e ∈ r.types.entries, ∀ d ∈ e.2.declarations, d.WellKinded))

/-- The uses an endpoint is made with: those of its parameters and responses. -/
def Endpoint.types (e : Endpoint) : List TypeUse :=
  e.pathParameters.map PathParameter.type ++ e.queryParameters.map QueryParameter.type ++
    e.schemas.map Prod.snd

/-- Every use is well-kinded. -/
def Endpoint.WellKinded (e : Endpoint) : Prop := ∀ t ∈ e.types, t.WellKinded

instance : DecidablePred Endpoint.WellKinded :=
  fun e => inferInstanceAs (Decidable (∀ t ∈ e.types, t.WellKinded))

/-- Types and endpoints mention names of the kind they say. -/
structure ApiDefinition.WellKinded (d : ApiDefinition) : Prop where
  registry : d.registry.WellKinded
  endpoints : ∀ e ∈ d.endpoints, e.WellKinded

instance : DecidablePred ApiDefinition.WellKinded := fun d =>
  decidable_of_iff (d.registry.WellKinded ∧ ∀ e ∈ d.endpoints, e.WellKinded)
    ⟨fun h => ⟨h.1, h.2⟩, fun h => ⟨h.registry, h.endpoints⟩⟩

/-! ### Declarations of a well-kinded registry -/

namespace History

theorem mem_declarations_of_at? {h : History} {v : Version} {d : Declaration}
    (hd : h.at? v = some d) : d ∈ h.declarations := by
  cases h with
  | constant d' =>
      obtain rfl := Option.some.inj hd
      exact List.mem_singleton_self _
  | evolving t =>
      obtain ⟨e, he, rfl⟩ := Option.map_eq_some_iff.mp hd
      exact List.mem_map_of_mem (List.mem_of_find?_eq_some he)

theorem first_mem_declarations (h : History) : h.first ∈ h.declarations := by
  cases h with
  | constant d => exact List.mem_singleton_self _
  | evolving t => exact List.mem_map_of_mem List.mem_cons_self

end History

namespace Registry

variable {r : Registry} {v : Version} {n : QualifiedName}

/-- A type is declared at the version, and is an alias there if its name says so. -/
def Available (r : Registry) (v : Version) (n : QualifiedName) : Prop :=
  ∃ d, r.Declares v n d ∧ (n.isAlias = true → d.kind = .alias)

theorem WellKinded.of_get? (hr : r.WellKinded) {history : History} {d : Declaration}
    (hget : r.get? n = some history) (hd : d ∈ history.declarations) : d.WellKinded :=
  hr (n, history) (SortedMap.get?_eq_some_iff.mp hget) d hd

theorem WellKinded.mentions (hr : r.WellKinded) {d : Declaration} (hd : r.Declares v n d) :
    ∀ m ∈ Shape.mentions d.resolved, m.WellKinded := by
  obtain ⟨history, hget, hat⟩ := hd
  exact Declaration.wellKinded_iff.mp (hr.of_get? hget (History.mem_declarations_of_at? hat))

/-! ### When a resolution succeeds -/

variable {ms : List Mention} {p : Pass} {o : Outcome}

/-- A successful walk marks the name of an alias only if the type is one: no other
route leads to such a name. -/
theorem Resolves.alias_of_marked (h : r.Resolves v ms p o) (hr : r.WellKinded)
    (hms : ∀ m ∈ ms, m.WellKinded) (hok : o.result = .ok ()) (hn : (n, v) ∈ o.pass.marks)
    (halias : n.isAlias = true) :
    (n, v) ∈ p.marks ∨ ∃ d, r.Declares v n d ∧ d.kind = .alias := by
  induction h with
  | done => exact Or.inl hn
  | skip _ _ ih => exact ih (List.forall_mem_cons.mp hms).2 hok hn
  | unknown _ _ => cases hok
  | «alias» _ declared _ ih =>
      rcases ih (List.forall_mem_cons.mp hms).2 hok hn with hn | hn
      · rw [Pass.marks_report, Pass.mem_marks_mark] at hn
        rcases hn with ⟨rfl, -⟩ | hn
        · exact Or.inr ⟨_, declared, rfl⟩
        · exact Or.inl hn
      · exact Or.inr hn
  | mismatch _ _ _ => cases hok
  | enter _ declared _ _ _ ihInner ihTail =>
      rcases ihTail (List.forall_mem_cons.mp hms).2 hok hn with hn | hn
      · rcases ihInner (hr.mentions declared) rfl hn with hn | hn
        · rcases Pass.mem_marks_mark.mp hn with ⟨rfl, -⟩ | hn
          · -- this rule enters declarations, and their names are no names of aliases
            have hdecl : n.isAlias = false := hms (.declaration n) List.mem_cons_self
            rw [halias] at hdecl
            cases hdecl
          · exact Or.inl hn
        · exact Or.inr hn
      · exact Or.inr hn
  | enterFails _ _ _ _ _ => cases hok

/-- A mismatch is reported about the name of an alias. -/
theorem Resolves.isAlias_of_notAlias (h : r.Resolves v ms p o) (hr : r.WellKinded)
    (hms : ∀ m ∈ ms, m.WellKinded) {kind : ShapeKind}
    (herr : o.result = .error (.notAlias n kind)) : n.isAlias = true := by
  induction h with
  | done => cases herr
  | skip _ _ ih => exact ih (List.forall_mem_cons.mp hms).2 herr
  | unknown _ missing =>
      obtain rfl := Except.error.inj herr
      obtain ⟨-, -, d, hd, -⟩ := blames_of_declarationAt missing
      rw [declarationAt_eq_ok_iff.mpr hd] at missing
      cases missing
  | «alias» _ _ _ ih => exact ih (List.forall_mem_cons.mp hms).2 herr
  | mismatch _ _ _ =>
      obtain ⟨rfl, -⟩ := ResolveError.notAlias.inj (Except.error.inj herr)
      exact hms (.alias _) List.mem_cons_self
  | enter _ _ _ _ _ _ ihTail =>
      exact ihTail (List.forall_mem_cons.mp hms).2 herr
  | enterFails _ declared _ _ ih => exact ih (hr.mentions declared) herr

/-- A resolution from nothing succeeds exactly if every name that is reachable from
its mentions is available. -/
theorem Resolves.isOk_iff (h : r.Resolves v ms .empty o) (hr : r.WellKinded)
    (hms : ∀ m ∈ ms, m.WellKinded) :
    o.result = .ok () ↔ ∀ n, r.Reachable v (mentioned ms) n → r.Available v n := by
  constructor
  · intro hok n hreach
    have hmark := (h.marked_iff_reachable hok).mpr hreach
    rcases h.settled hok hmark with hold | hsettled
    · exact absurd hold List.not_mem_nil
    obtain ⟨d, hd⟩ := hsettled.declared
    refine ⟨d, hd, fun halias => ?_⟩
    -- some mention has marked the name, but not every mention has looked at its shape
    rcases h.alias_of_marked hr hms hok hmark halias with hold | ⟨d', hd', kind⟩
    · exact absurd hold List.not_mem_nil
    · rwa [hd.unique hd']
  · intro havailable
    rcases Outcome.cases o with ⟨q, rfl⟩ | ⟨e, q, rfl⟩
    · rfl
    obtain ⟨n, hreach, hblames⟩ := h.blames rfl
    obtain ⟨d, ⟨history, hget, hat⟩, hkind⟩ := havailable n hreach
    cases e with
    | missing n' =>
        obtain ⟨-, hnone⟩ := hblames
        rw [hnone] at hget
        cases hget
    | unavailable n' w =>
        obtain ⟨-, -, history', hget', hnone⟩ := hblames
        obtain rfl := Option.some.inj (hget.symm.trans hget')
        rw [hnone] at hat
        cases hat
    | notAlias n' kind =>
        obtain ⟨rfl, hne, d', hd', rfl⟩ := hblames
        have halias := h.isAlias_of_notAlias hr hms rfl
        rw [hd'.unique ⟨history, hget, hat⟩] at hne
        exact absurd (hkind halias) hne

end Registry

end ApiChronicle
