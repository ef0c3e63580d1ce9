import ApiChronicle.Proofs.Traversal
import Mathlib.Logic.Relation

/-! # ApiChronicle.Proofs.OpenDeclarations

**A resolution while it is under way.**

`Registry.Resolves` leads from the beginning of a walk to its end. What holds in between is
said of a `Moment`: what the walk has met, the mentions that are left of the list it is in, and
the declarations that it has entered and not yet left. Those form a stack, the innermost first,
and each remembers the mentions behind its own. `Registry.Moves` is one move of the walk, one
rule for each thing it can do with the next mention, and `Registry.Ends` tells when it has
ended and how.

* `moves_wellFounded`: no walk goes on for ever, through whatever cycles. A move marks a
  declared name or leaves the marks and uses up a mention or an open declaration.
* `Resolves.exists_end`: the walk ends with the outcome of the resolution, and since it never
  has a choice (`Moves.unique`), whatever moment it passes lies on the way there
  (`Resolves.leads_on`).
* `Coherent`: what the stack holds at every moment, one step lemma and one run lemma.
-/

namespace ApiChronicle

/-- A declaration that has been entered and not yet left. -/
structure OpenDeclaration where
  name : QualifiedName
  declaration : Declaration
  /-- What is left of the list it was mentioned in. -/
  behind : List Mention

/-- What the declaration mentions. -/
def OpenDeclaration.mentions (d : OpenDeclaration) : List Mention :=
  Shape.mentions d.declaration.resolved

/-- A walk that is under way. -/
structure Moment where
  /-- What has been met so far. -/
  pass : Pass
  /-- What is left of the innermost list of mentions. -/
  todo : List Mention
  /-- The declarations that are being resolved, the innermost first. -/
  stack : List OpenDeclaration

namespace Moment

/-- The moment before anything of a list is resolved. -/
def start (p : Pass) (ms : List Mention) : Moment := ⟨p, ms, []⟩

/-- The names of the declarations that are being resolved. -/
def names (m : Moment) : List QualifiedName := m.stack.map OpenDeclaration.name

/-- The number of mentions that are left anywhere, and of declarations to leave. -/
def work (m : Moment) : Nat :=
  m.todo.length + (m.stack.flatMap OpenDeclaration.behind).length + m.stack.length

end Moment

namespace Registry

/-! ### Moves -/

/-- One move of a walk. -/
inductive Moves (r : Registry) (v : Version) : Moment → Moment → Prop
  /-- A marked name is skipped, however it is mentioned. -/
  | skip {p m rest stack} (marked : (m.name, v) ∈ p.marks) :
      Moves r v ⟨p, m :: rest, stack⟩ ⟨p, rest, stack⟩
  /-- An alias is marked and reported, on either route. -/
  | alias {p m rest stack shape} (fresh : (m.name, v) ∉ p.marks)
      (declared : r.Declares v m.name (.alias shape)) :
      Moves r v ⟨p, m :: rest, stack⟩
        ⟨(p.mark m.name v).report (.alias m.name shape), rest, stack⟩
  /-- A declaration is marked and entered. -/
  | enter {p n rest stack d} (fresh : (n, v) ∉ p.marks) (declared : r.Declares v n d)
      (kind : d.kind ≠ .alias) :
      Moves r v ⟨p, .declaration n :: rest, stack⟩
        ⟨p.mark n v, Shape.mentions d.resolved, ⟨n, d, rest⟩ :: stack⟩
  /-- A declaration is reported and left once all it mentions is resolved. -/
  | leave {p d stack} :
      Moves r v ⟨p, [], d :: stack⟩
        ⟨p.report (.declaration d.name d.declaration.resolved), d.behind, stack⟩

/-- The end of a walk. -/
inductive Ends (r : Registry) (v : Version) : Moment → Outcome → Prop
  /-- Nothing is left. -/
  | done {p} : Ends r v ⟨p, [], []⟩ (.ok p)
  /-- The name is not declared at the version. -/
  | unknown {p m rest stack e} (fresh : (m.name, v) ∉ p.marks)
      (missing : r.declarationAt m.name v = .error e) :
      Ends r v ⟨p, m :: rest, stack⟩ (.fail e (p.lookingUp v m))
  /-- Something else was mentioned as an alias. -/
  | mismatch {p n rest stack d} (fresh : (n, v) ∉ p.marks) (declared : r.Declares v n d)
      (kind : d.kind ≠ .alias) :
      Ends r v ⟨p, .alias n :: rest, stack⟩ (.fail (.notAlias n d.kind) p)

/-- Moves lead from one moment to another. -/
def Leads (r : Registry) (v : Version) : Moment → Moment → Prop :=
  Relation.ReflTransGen (r.Moves v)

variable {r : Registry} {v : Version} {ms : List Mention} {p : Pass} {m m' : Moment} {o : Outcome}

/-! ### No choice -/

/-- There is one move at most. -/
theorem Moves.unique {a b : Moment} (h : r.Moves v m a) (h' : r.Moves v m b) : a = b := by
  cases h with
  | skip marked =>
      cases h' with
      | skip _ => rfl
      | «alias» fresh _ => exact absurd marked fresh
      | enter fresh _ _ => exact absurd marked fresh
  | «alias» fresh declared =>
      cases h' with
      | skip marked => exact absurd marked fresh
      | «alias» _ declared' =>
          obtain rfl := Shape.alias.inj (declared.unique declared')
          rfl
      | enter _ declared' kind =>
          obtain rfl := declared.unique declared'
          exact absurd rfl kind
  | enter fresh declared kind =>
      cases h' with
      | skip marked => exact absurd marked fresh
      | «alias» _ declared' =>
          obtain rfl := declared.unique declared'
          exact absurd rfl kind
      | enter _ declared' _ =>
          obtain rfl := declared.unique declared'
          rfl
  | leave =>
      cases h' with
      | leave => rfl

/-- A walk that has ended does not move any more. -/
theorem Ends.not_moves (h : r.Ends v m o) : ¬r.Moves v m m' := by
  intro hmove
  cases h with
  | done => cases hmove
  | unknown fresh missing =>
      cases hmove with
      | skip marked => exact fresh marked
      | «alias» _ declared => cases (declarationAt_eq_ok_iff.mpr declared).symm.trans missing
      | enter _ declared _ => cases (declarationAt_eq_ok_iff.mpr declared).symm.trans missing
  | mismatch fresh declared kind =>
      cases hmove with
      | skip marked => exact fresh marked
      | «alias» _ declared' =>
          obtain rfl := declared.unique declared'
          exact kind rfl

/-! ### Every walk comes to an end -/

/-- Moves make the pair of unmarked names and work left smaller, the names first. -/
theorem Moves.measure_lt (h : r.Moves v m m') :
    Prod.Lex (· < ·) (· < ·) (r.unmarked v m'.pass, m'.work) (r.unmarked v m.pass, m.work) := by
  cases h with
  | skip _ => exact .right _ (by simp [Moment.work])
  | @«alias» p x _ _ shape fresh declared =>
      have hreport := unmarked_anti (r := r) (v := v)
        (Pass.Extends.report (p.mark x.name v) (.alias x.name shape))
      exact .left _ _ (hreport.trans_lt (unmarked_mark_lt declared fresh))
  | enter fresh declared _ => exact .left _ _ (unmarked_mark_lt declared fresh)
  | leave =>
      refine .right _ ?_
      simp only [Moment.work, List.flatMap_cons, List.length_append, List.length_cons,
        List.length_nil]
      omega

/-- **No walk goes on for ever**, wherever it begins. -/
theorem moves_wellFounded (r : Registry) (v : Version) :
    WellFounded fun later earlier => r.Moves v earlier later :=
  Subrelation.wf Moves.measure_lt
    (InvImage.wf (fun m : Moment => (r.unmarked v m.pass, m.work))
      (WellFounded.prod_lex Nat.lt_wfRel.wf Nat.lt_wfRel.wf))

/-! ### The walk of a resolution -/

/-- A list that is resolved without a fault is used up, whatever is open around it. -/
theorem Resolves.leads (h : r.Resolves v ms p o) (hok : o.result = .ok ())
    (stack : List OpenDeclaration) : r.Leads v ⟨p, ms, stack⟩ ⟨o.pass, [], stack⟩ := by
  induction h generalizing stack with
  | done => exact .refl
  | skip marked _ ih => exact .head (.skip marked) (ih hok stack)
  | unknown _ _ => cases hok
  | «alias» fresh declared _ ih => exact .head (.alias fresh declared) (ih hok stack)
  | mismatch _ _ _ => cases hok
  | @enter n rest _ _ _ d fresh declared kind _ _ ihInner ihTail =>
      exact .head (.enter fresh declared kind)
        ((ihInner rfl (⟨n, d, rest⟩ :: stack)).trans (.head .leave (ihTail hok stack)))
  | enterFails _ _ _ _ _ => cases hok

/-- A list that is resolved with a fault leads to the mention that has it. -/
theorem Resolves.leads_to_fault (h : r.Resolves v ms p o) {e : ResolveError}
    (herr : o.result = .error e) (stack : List OpenDeclaration) :
    ∃ m, r.Leads v ⟨p, ms, stack⟩ m ∧ r.Ends v m o := by
  induction h generalizing stack with
  | done => cases herr
  | skip marked _ ih =>
      obtain ⟨m, hm, hend⟩ := ih herr stack
      exact ⟨m, .head (.skip marked) hm, hend⟩
  | unknown fresh missing => exact ⟨_, .refl, .unknown fresh missing⟩
  | «alias» fresh declared _ ih =>
      obtain ⟨m, hm, hend⟩ := ih herr stack
      exact ⟨m, .head (.alias fresh declared) hm, hend⟩
  | mismatch fresh declared kind => exact ⟨_, .refl, .mismatch fresh declared kind⟩
  | @enter n rest _ _ _ d fresh declared kind inner _ _ ihTail =>
      obtain ⟨m, hm, hend⟩ := ihTail herr stack
      have hinner := inner.leads rfl (⟨n, d, rest⟩ :: stack)
      exact ⟨m, .head (.enter fresh declared kind) (hinner.trans (.head .leave hm)), hend⟩
  | @enterFails n rest _ _ d _ fresh declared kind _ ih =>
      obtain ⟨m, hm, hend⟩ := ih herr (⟨n, d, rest⟩ :: stack)
      exact ⟨m, .head (.enter fresh declared kind) hm, hend⟩

/-- The walk ends with the outcome of the resolution. -/
theorem Resolves.exists_end (h : r.Resolves v ms p o) :
    ∃ last, r.Leads v (.start p ms) last ∧ r.Ends v last o := by
  rcases Outcome.cases o with ⟨q, rfl⟩ | ⟨e, q, rfl⟩
  · exact ⟨⟨q, [], []⟩, h.leads rfl [], .done⟩
  · exact h.leads_to_fault rfl []

/-- From each moment the walk leads on to its end. -/
theorem Resolves.leads_on (h : r.Resolves v ms p o) (hm : r.Leads v (.start p ms) m) :
    ∃ last, r.Leads v m last ∧ r.Ends v last o := by
  obtain ⟨last, hlast, hend⟩ := h.exists_end
  have hunique : Relator.RightUnique (r.Moves v) := fun _ _ _ => Moves.unique
  -- of two moments of one walk one leads to the other, and from the last one nothing is reached
  rcases Relation.ReflTransGen.total_of_right_unique hunique hm hlast with hto | hto
  · exact ⟨last, hto, hend⟩
  · rcases hto.cases_head with rfl | ⟨_, hmove, -⟩
    · exact ⟨last, .refl, hend⟩
    · exact absurd hmove hend.not_moves

/-- At each moment the walk goes on or has ended with the outcome of the resolution. -/
theorem Resolves.moves_or_ends (h : r.Resolves v ms p o) (hm : r.Leads v (.start p ms) m) :
    (∃ m', r.Moves v m m') ∨ r.Ends v m o := by
  obtain ⟨last, hto, hend⟩ := h.leads_on hm
  rcases hto.cases_head with rfl | ⟨m', hmove, -⟩
  · exact Or.inr hend
  · exact Or.inl ⟨m', hmove⟩

/-! ### The open declarations -/

/-- What holds of the open declarations at every moment: they are declared, and are no aliases;
they have been marked; and none is open twice. -/
structure Coherent (r : Registry) (v : Version) (m : Moment) : Prop where
  declared : ∀ d ∈ m.stack, r.Declares v d.name d.declaration ∧ d.declaration.kind ≠ .alias
  marked : ∀ d ∈ m.stack, (d.name, v) ∈ m.pass.marks
  nodup : m.names.Nodup

theorem coherent_start (r : Registry) (v : Version) (p : Pass) (ms : List Mention) :
    r.Coherent v (.start p ms) :=
  ⟨List.forall_mem_nil _, List.forall_mem_nil _, List.nodup_nil⟩

/-- A name that is not marked is the name of no open declaration. -/
theorem Coherent.not_mem_names {n : QualifiedName} (h : r.Coherent v m)
    (fresh : (n, v) ∉ m.pass.marks) : n ∉ m.names := by
  intro hn
  obtain ⟨d, hd, rfl⟩ := List.mem_map.mp hn
  exact fresh (h.marked d hd)

theorem Coherent.moves (h : r.Coherent v m) (hmove : r.Moves v m m') : r.Coherent v m' := by
  cases hmove with
  | skip _ => exact ⟨h.declared, h.marked, h.nodup⟩
  | «alias» _ _ =>
      exact ⟨h.declared, fun d hd => Pass.mem_marks_mark.mpr (Or.inr (h.marked d hd)), h.nodup⟩
  | enter fresh declared kind =>
      refine ⟨List.forall_mem_cons.mpr ⟨⟨declared, kind⟩, h.declared⟩,
        List.forall_mem_cons.mpr ⟨?_, fun d hd => ?_⟩,
        List.nodup_cons.mpr ⟨h.not_mem_names fresh, h.nodup⟩⟩
      · exact Pass.mem_marks_mark.mpr (Or.inl ⟨rfl, rfl⟩)
      · exact Pass.mem_marks_mark.mpr (Or.inr (h.marked d hd))
  | leave =>
      exact ⟨(List.forall_mem_cons.mp h.declared).2, (List.forall_mem_cons.mp h.marked).2,
        (List.nodup_cons.mp h.nodup).2⟩

/-- What moves keep holds at every moment. -/
theorem Leads.induction {motive : Moment → Prop} (h : r.Leads v m m') (hm : motive m)
    (hmoves : ∀ m m', motive m → r.Moves v m m' → motive m') : motive m' := by
  induction h with
  | refl => exact hm
  | tail _ hmove ih => exact hmoves _ _ ih hmove

theorem Leads.coherent (h : r.Leads v (.start p ms) m) : r.Coherent v m :=
  h.induction (r.coherent_start v p ms) fun _ _ => Coherent.moves

end Registry

end ApiChronicle
