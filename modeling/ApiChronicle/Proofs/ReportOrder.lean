import ApiChronicle.Proofs.CallSeries
import ApiChronicle.Proofs.OpenDeclarations

/-! # ApiChronicle.Proofs.ReportOrder

**The order in which types are reported**: what a declaration mentions comes before it.

In a cycle that cannot hold of every mention. It holds of all but those that lead back to a
declaration which is still open, and the stack of a `Moment` says which those are. `Pending` ties
the lists that are left to the declarations on the stack: whatever is no longer left has been
met. `Orderly` adds that whatever has been met is reported or open. Both are kept by
every move, so when a declaration is about to be reported, with none of its mentions left, each
of them is reported or open.

Open declarations lead to one another from the outside in (`Pending.leads_to_innermost`). A
declaration through which no cycle passes can therefore refer to none of them, and finds
everything it refers to among the reports before it (`ChildrenFirst`).
-/

namespace ApiChronicle

open Relation (ReflTransGen TransGen)

/-- Some report shows the declaration of the name. -/
def Pass.Shows (r : Registry) (v : Version) (p : Pass) (n : QualifiedName) : Prop :=
  ∃ rep ∈ p.reports, rep.name = n ∧ rep.Faithful r v

theorem Pass.Shows.extend {r : Registry} {v : Version} {p q : Pass} {n : QualifiedName}
    (h : p.Shows r v n) (hpq : p.Extends q) : q.Shows r v n :=
  h.imp fun _ hrep => ⟨hpq.reports hrep.1, hrep.2⟩

namespace Registry

variable {r : Registry} {v : Version} {p q : Pass} {m m' : Moment} {n : QualifiedName}
  {todo : List Mention} {stack : List OpenDeclaration}

/-! ### Mentions that are left -/

/-- What is left of a list belongs to the innermost declaration, and what is no longer left of
that has been met; and so on outwards, where the declaration itself is still left. -/
def Pending (v : Version) (p : Pass) : List Mention → List OpenDeclaration → Prop
  | _, [] => True
  | todo, d :: outer =>
    todo ⊆ d.mentions ∧ (∀ x ∈ d.mentions, x ∈ todo ∨ (x.name, v) ∈ p.marks) ∧
      Pending v p (.declaration d.name :: d.behind) outer

theorem Pending.extend (h : Pending v p todo stack) (hpq : p.Extends q) :
    Pending v q todo stack := by
  induction stack generalizing todo with
  | nil => trivial
  | cons d outer ih =>
      obtain ⟨hsub, hmet, houter⟩ := h
      exact ⟨hsub, fun x hx => (hmet x hx).imp_right fun h => hpq.marks h, ih houter⟩

/-- A mention that has been met need not be left. -/
theorem Pending.drop {x : Mention} (h : Pending v p (x :: todo) stack)
    (marked : (x.name, v) ∈ p.marks) : Pending v p todo stack := by
  cases stack with
  | nil => trivial
  | cons d outer =>
      obtain ⟨hsub, hmet, houter⟩ := h
      refine ⟨fun y hy => hsub (List.mem_cons_of_mem _ hy), fun y hy => ?_, houter⟩
      rcases hmet y hy with hy | hy
      · rcases List.mem_cons.mp hy with rfl | hy
        · exact Or.inr marked
        · exact Or.inl hy
      · exact Or.inr hy

/-- Each open declaration leads to the innermost one. -/
theorem Pending.leads_to_innermost {d : OpenDeclaration} (h : Pending v p todo (d :: stack))
    (hdeclared : ∀ e ∈ d :: stack, r.Declares v e.name e.declaration) :
    ∀ e ∈ d :: stack, ReflTransGen (r.RefersTo v) e.name d.name := by
  induction stack generalizing d todo with
  | nil =>
      intro e he
      obtain rfl := List.mem_singleton.mp he
      exact .refl
  | cons outer stack ih =>
      obtain ⟨-, -, houter⟩ := h
      have hreaches := ih houter (List.forall_mem_cons.mp hdeclared).2
      -- the declaration is among the mentions of the one around it
      have href : r.RefersTo v outer.name d.name := by
        have hmention := houter.1 List.mem_cons_self
        refine (refersTo_iff_mention (hdeclared outer ?_)).mpr ⟨_, hmention, rfl⟩
        exact List.mem_cons_of_mem _ List.mem_cons_self
      intro e he
      rcases List.mem_cons.mp he with rfl | he
      · exact .refl
      · exact (hreaches e he).tail href

/-! ### Orderly moments -/

/-- In a list with one report more, a report is that one or has its place in the list. -/
theorem split_of_concat {reports before behind : List Report} {last rep : Report}
    (h : reports ++ [last] = before ++ rep :: behind) :
    reports = before ∧ last = rep ∨ ∃ behind', reports = before ++ rep :: behind' := by
  rcases List.eq_nil_or_concat' behind with rfl | ⟨behind', x, rfl⟩
  · obtain ⟨hbefore, hlast⟩ := List.append_inj' h rfl
    exact Or.inl ⟨hbefore, List.singleton_inj.mp hlast⟩
  · rw [← List.cons_append, ← List.append_assoc] at h
    exact Or.inr ⟨behind', (List.append_inj' h rfl).1⟩

/-- A report of a declaration through which no cycle passes comes behind reports of everything
the declaration refers to. -/
def ChildrenFirst (r : Registry) (v : Version) (reports : List Report) : Prop :=
  ∀ before n schema behind, reports = before ++ .declaration n schema :: behind →
    ¬TransGen (r.RefersTo v) n n → ∀ b, r.RefersTo v n b →
      ∃ rep ∈ before, rep.name = b ∧ rep.Faithful r v

theorem ChildrenFirst.concat {reports : List Report} {rep : Report}
    (h : r.ChildrenFirst v reports)
    (hrep : ∀ n schema, rep = .declaration n schema → ¬TransGen (r.RefersTo v) n n →
      ∀ b, r.RefersTo v n b → ∃ rep ∈ reports, rep.name = b ∧ rep.Faithful r v) :
    r.ChildrenFirst v (reports ++ [rep]) := by
  intro before n schema behind hsplit
  rcases split_of_concat hsplit with ⟨rfl, hlast⟩ | ⟨behind', hsplit'⟩
  · exact hrep n schema hlast
  · exact h before n schema behind' hsplit'

/-- What holds at every moment of a walk that has begun with everything met reported. -/
structure Orderly (r : Registry) (v : Version) (m : Moment) : Prop
    extends r.Coherent v m where
  pending : Pending v m.pass m.todo m.stack
  accounted : ∀ n, (n, v) ∈ m.pass.marks → m.pass.Shows r v n ∨ n ∈ m.names
  childrenFirst : r.ChildrenFirst v m.pass.reports

/-- When a declaration is about to be reported, each name it refers to is reported or belongs
to an open declaration, which leads to the one that is about to be reported. -/
theorem Orderly.reported_or_open {d : OpenDeclaration} (h : r.Orderly v ⟨p, [], d :: stack⟩)
    {b : QualifiedName} (href : r.RefersTo v d.name b) :
    p.Shows r v b ∨ b ∈ (d :: stack).map OpenDeclaration.name ∧
      ReflTransGen (r.RefersTo v) b d.name := by
  have hdeclared : ∀ e ∈ d :: stack, r.Declares v e.name e.declaration :=
    fun e he => (h.declared e he).1
  obtain ⟨-, hmet, -⟩ := h.pending
  obtain ⟨x, hx, rfl⟩ :=
    (refersTo_iff_mention (hdeclared d List.mem_cons_self)).mp href
  refine (h.accounted x.name ((hmet x hx).resolve_left List.not_mem_nil)).imp_right fun hopen => ?_
  obtain ⟨e, he, hname⟩ := List.mem_map.mp hopen
  exact ⟨hopen, hname ▸ h.pending.leads_to_innermost hdeclared e he⟩

theorem Orderly.moves (h : r.Orderly v m) (hmove : r.Moves v m m') : r.Orderly v m' := by
  have hcoherent := h.toCoherent.moves hmove
  cases hmove with
  | skip marked =>
      exact { hcoherent with
        pending := h.pending.drop marked
        accounted := h.accounted
        childrenFirst := h.childrenFirst }
  | @«alias» p x rest stack shape fresh declared =>
      have hgrows : p.Extends ((p.mark x.name v).report (.alias x.name shape)) :=
        (Pass.Extends.mark ..).trans (.report ..)
      refine { hcoherent with
        pending := (h.pending.extend hgrows).drop (by simp)
        accounted := fun n hn => ?_
        childrenFirst := h.childrenFirst.concat fun _ _ hrep => by cases hrep }
      rw [Pass.marks_report, Pass.mem_marks_mark] at hn
      rcases hn with ⟨rfl, -⟩ | hn
      · exact Or.inl ⟨_, Pass.mem_reports_report.mpr (Or.inr rfl), rfl, declared⟩
      · exact (h.accounted n hn).imp_left fun hshows => hshows.extend hgrows
  | @enter p n rest stack d fresh declared kind =>
      have hgrows := Pass.Extends.mark p n v
      refine { hcoherent with
        pending := ⟨List.Subset.refl _, fun _ hx => Or.inl hx, h.pending.extend hgrows⟩
        accounted := fun x hx => ?_
        childrenFirst := h.childrenFirst }
      rcases Pass.mem_marks_mark.mp hx with ⟨rfl, -⟩ | hx
      · exact Or.inr List.mem_cons_self
      · exact (h.accounted x hx).imp (fun hshows => hshows.extend hgrows)
          fun hopen => List.mem_cons_of_mem _ hopen
  | @leave p d stack =>
      obtain ⟨declared, kind⟩ := h.declared d List.mem_cons_self
      have hgrows := Pass.Extends.report p (.declaration d.name d.declaration.resolved)
      obtain ⟨-, -, houter⟩ := h.pending
      refine { hcoherent with
        pending := (houter.extend hgrows).drop (h.marked d List.mem_cons_self)
        accounted := fun x hx => ?_
        childrenFirst := h.childrenFirst.concat fun n schema hrep hcycle b href => ?_ }
      · rcases h.accounted x hx with hshows | hopen
        · exact Or.inl (hshows.extend hgrows)
        rcases List.mem_cons.mp hopen with rfl | hopen
        · exact Or.inl ⟨_, Pass.mem_reports_report.mpr (Or.inr rfl), rfl, _, declared, kind, rfl⟩
        · exact Or.inr hopen
      · obtain ⟨rfl, -⟩ := Report.declaration.inj hrep
        -- an open declaration that it refers to leads back to it
        exact (h.reported_or_open href).resolve_right fun ⟨_, hback⟩ =>
          hcycle (.head' href hback)

/-- The declaration that a move reports is the innermost open one. -/
theorem Orderly.children_at_hand {schema : Schema} {b : QualifiedName} (h : r.Orderly v m)
    (hmove : r.Moves v m m')
    (hreport : m'.pass.reports = m.pass.reports ++ [.declaration n schema])
    (huses : ∃ t, Schema.Uses schema t ∧ t.Names b) :
    m.pass.Shows r v b ∨ b ∈ m.names ∧ ReflTransGen (r.RefersTo v) b n := by
  cases hmove with
  | skip _ => simp at hreport
  | «alias» _ _ => cases List.singleton_inj.mp (List.append_cancel_left hreport)
  | enter _ _ _ => simp [Pass.mark] at hreport
  | @leave p d stack =>
      obtain ⟨rfl, rfl⟩ :=
        Report.declaration.inj (List.singleton_inj.mp (List.append_cancel_left hreport))
      obtain ⟨t, ht, hb⟩ := huses
      exact h.reported_or_open ⟨d.declaration, t, (h.declared d List.mem_cons_self).1,
        Declaration.uses_resolved.mp ht, hb⟩

theorem Leads.orderly (h : r.Leads v m m') (hm : r.Orderly v m) : r.Orderly v m' :=
  h.induction hm fun _ _ => Orderly.moves

/-! ### The moment of a report -/

/-- A move reports one thing at most. -/
theorem Moves.reports (h : r.Moves v m m') :
    m'.pass.reports = m.pass.reports ∨ ∃ rep, m'.pass.reports = m.pass.reports ++ [rep] := by
  cases h with
  | skip _ => exact Or.inl rfl
  | «alias» _ _ => exact Or.inr ⟨_, rfl⟩
  | enter _ _ _ => exact Or.inl rfl
  | leave => exact Or.inr ⟨_, rfl⟩

/-- Whatever has been reported on the way was reported by a move. -/
theorem Leads.exists_reporting (h : r.Leads v m m') {before behind : List Report} {rep : Report}
    (hsplit : m'.pass.reports = m.pass.reports ++ before ++ rep :: behind) :
    ∃ a b, r.Leads v m a ∧ r.Moves v a b ∧ a.pass.reports = m.pass.reports ++ before ∧
      b.pass.reports = a.pass.reports ++ [rep] := by
  induction h generalizing behind with
  | refl => simp at hsplit
  | @tail a b hleads hmove ih =>
      rcases hmove.reports with hsame | ⟨last, hlast⟩
      · exact ih (hsame ▸ hsplit)
      rcases split_of_concat (hlast ▸ hsplit) with ⟨hbefore, rfl⟩ | ⟨behind', hsplit'⟩
      · exact ⟨a, b, hleads, hmove, hbefore, hlast⟩
      · exact ih hsplit'

/-- The end of a walk reports nothing. -/
theorem Ends.reports {o : Outcome} (h : r.Ends v m o) : o.pass.reports = m.pass.reports := by
  cases h with
  | done => rfl
  | @unknown p x _ _ _ _ _ => cases x <;> rfl
  | mismatch _ _ _ => rfl

/-! ### Series of calls at one version -/

variable {history : List (Call × Except ResolveError Unit)}

/-- A walk that begins with everything met reported begins orderly. -/
theorem orderly_start (hmarks : ∀ n, (n, v) ∈ p.marks → p.Shows r v n)
    (hreports : r.ChildrenFirst v p.reports) (ms : List Mention) :
    r.Orderly v (.start p ms) :=
  { r.coherent_start v p ms with
    pending := trivial
    accounted := fun n hn => Or.inl (hmarks n hn)
    childrenFirst := hreports }

/-- After calls at one version that have not failed, everything met is reported, and in order. -/
theorem Series.orderly (h : r.Series history p)
    (hcalls : ∀ x ∈ history, x.1.version = v ∧ x.2 = .ok ()) (ms : List Mention) :
    r.Orderly v (.start p ms) := by
  induction h generalizing ms with
  | start =>
      refine orderly_start (fun _ hn => absurd hn List.not_mem_nil) ?_ ms
      intro before n schema behind hsplit
      cases (List.nil_eq_append_iff.mp hsplit).2
  | @call history p earlier c ih =>
      obtain ⟨⟨rfl, hok⟩, hearlier⟩ := List.forall_mem_cons.mp hcalls
      have hleads := (c.run_resolves r p).leads hok []
      have hend := hleads.orderly (ih hearlier c.mentions)
      exact orderly_start (fun n hn => (hend.accounted n hn).resolve_right List.not_mem_nil)
        hend.childrenFirst ms

/-- **Children are reported first.** Let a series of calls at one version have had no failure.
Whenever a further call at that version, whatever its end, hands a declaration to its collector,
there is the moment of the walk just before it. Each name that occurs in the declaration has been
reported by then, as what it is declared to be, or belongs to an open declaration through which
the one at hand was reached. So where no cycle passes through a declaration, everything that it
refers to is among the reports before it. -/
theorem Series.children_first (h : r.Series history p)
    (hcalls : ∀ x ∈ history, x.1.version = v ∧ x.2 = .ok ()) :
    (∀ c : Call, c.version = v → ∀ before n schema behind,
      (c.run r p).pass.reports = p.reports ++ before ++ .declaration n schema :: behind →
      ∃ m m', r.Leads v (.start p c.mentions) m ∧ r.Moves v m m' ∧
        m.pass.reports = p.reports ++ before ∧
        m'.pass.reports = m.pass.reports ++ [.declaration n schema] ∧
        ∀ t b, Schema.Uses schema t → t.Names b →
          (∃ rep ∈ m.pass.reports, rep.name = b ∧ rep.Faithful r v) ∨
          b ∈ m.names ∧ ReflTransGen (r.RefersTo v) b n) ∧
    ∀ before n schema behind, p.reports = before ++ .declaration n schema :: behind →
      ¬TransGen (r.RefersTo v) n n → ∀ b, r.RefersTo v n b →
        ∃ rep ∈ before, rep.name = b ∧ rep.Faithful r v := by
  refine ⟨fun c hversion before n schema behind hsplit => ?_, (h.orderly hcalls []).childrenFirst⟩
  subst hversion
  obtain ⟨last, hlast, hend⟩ := (c.run_resolves r p).exists_end
  obtain ⟨m, m', hm, hmove, hbefore, hreport⟩ :=
    hlast.exists_reporting (hend.reports.symm.trans hsplit)
  refine ⟨m, m', hm, hmove, hbefore, hreport, fun t b ht hb => ?_⟩
  exact (hm.orderly (h.orderly hcalls c.mentions)).children_at_hand hmove hreport ⟨t, ht, hb⟩

end Registry

/-! ### Nodes below a root -/

namespace NodeTree

def root : QualifiedName := .declaration [] ⟨["root"]⟩

/-- A root has a node. -/
def rootShape : Declaration :=
  .record ⟨root, .ofList [("first", property "first" (.declaration node))], ""⟩

/-- The nodes, which refer to one another, and a root above them, to which nothing refers. -/
def rooted : Registry where
  types := .ofList
    [(node, .constant nodeShape),
     (nodeId, .constant (.alias ⟨nodeId, .integerId, ""⟩)),
     (root, .constant rootShape)]
  auxiliary := .empty

theorem not_refersTo_root (a : QualifiedName) : ¬rooted.RefersTo .classic a root := by
  have hnone : ∀ n ∈ rooted.types.keys, ∀ d ∈ (rooted.declarationAt n .classic).toOption,
      ∀ m ∈ Shape.mentions d.resolved, m.name ≠ root := by decide +kernel
  intro href
  obtain ⟨d, -, declared, -⟩ := id href
  obtain ⟨m, hm, hroot⟩ := (Registry.refersTo_iff_mention declared).mp href
  have hd : d ∈ (rooted.declarationAt a .classic).toOption := by
    rw [Registry.declarationAt_eq_ok_iff.mpr declared]
    rfl
  exact hnone a declared.mem_keys d hd m hm hroot

/-- A call for the root reports the type of the IDs, the node and the root. The node is reported
while it is open itself, since it refers to nodes, and before the root. -/
theorem children_first_rooted :
    (∃ m, rooted.Leads .classic (.start .empty [.declaration root]) m ∧
      m.pass.reports.map Report.name = [nodeId] ∧ node ∈ m.names) ∧
    ∃ p, rooted.Series [(.use (.declaration root) .classic, .ok ())] p ∧
      p.reports.map Report.name = [nodeId, node, root] ∧
      ∃ rep ∈ p.reports.take 2, rep.name = node ∧ rep.Faithful rooted .classic := by
  have hok : ((Call.use (.declaration root) .classic).run rooted .empty).result = .ok () := by
    decide +kernel
  have hreports : ((Call.use (.declaration root) .classic).run rooted .empty).pass.reports =
      [.alias nodeId ⟨nodeId, .integerId, ""⟩, .declaration node nodeShape.resolved,
        .declaration root rootShape.resolved] := by
    decide +kernel
  have hseries : rooted.Series _ _ := .call .start (.use (.declaration root) .classic)
  rw [hok] at hseries
  constructor
  · obtain ⟨hcalls, -⟩ := Registry.Series.children_first (v := .classic) (r := rooted) .start
      (List.forall_mem_nil _)
    obtain ⟨m, -, hm, -, hbefore, -, hchildren⟩ :=
      hcalls (.use (.declaration root) .classic) rfl [.alias nodeId ⟨nodeId, .integerId, ""⟩] node
        nodeShape.resolved [.declaration root rootShape.resolved] hreports
    refine ⟨m, hm, by rw [hbefore]; rfl, ?_⟩
    obtain ⟨t, huses, hmention⟩ := Schema.mem_mentions_iff.mp
      (by decide +kernel : Mention.declaration node ∈ Shape.mentions nodeShape.resolved)
    have hnames := TypeUse.names_iff_mention.mpr ⟨_, hmention, rfl⟩
    rcases hchildren t node huses hnames with ⟨rep, hrep, hname, -⟩ | ⟨hopen, -⟩
    · rw [hbefore] at hrep
      obtain rfl := List.mem_singleton.mp hrep
      cases hname
    · exact hopen
  · obtain ⟨-, hacyclic⟩ := hseries.children_first (v := .classic) (by simp [Call.version])
    have hcycle : ¬TransGen (rooted.RefersTo .classic) root root := by
      intro hback
      obtain ⟨a, -, ha⟩ := TransGen.tail'_iff.mp hback
      exact not_refersTo_root a ha
    have href : rooted.RefersTo .classic root node :=
      (Registry.refersTo_iff_mention (Registry.declarationAt_eq_ok_iff.mp
        (by decide +kernel : rooted.declarationAt root .classic = .ok rootShape))).mpr
        (by decide +kernel)
    refine ⟨_, hseries, by rw [hreports]; rfl, ?_⟩
    rw [hreports]
    exact hacyclic [_, _] root _ _ hreports hcycle node href

end NodeTree

end ApiChronicle
