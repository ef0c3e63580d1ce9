import ApiChronicle.Proofs.BuildRoots

/-! # ApiChronicle.Proofs.CallSeries

**Series of calls** that share a pass.

A resolver is called with a use of a type, with the name of an alias or with the name of a
declaration, any number of times. What one call has marked the next one skips, and marks stay
when a call fails. So an answer depends on the calls before it, and `Registry.Series` is the
list of these with the answers they had.

What holds of every series is read off its marks: a marked name is one that an earlier call
has led to, and if the name has no declaration, that call has failed with just this
(`Series.met_of_marked`). So a fault is told at least once. It need not be told again
(`fault_told_once`): the name of a declaration is marked before it is looked up, and once
marked it is skipped, whether the look-up has failed or not. The name of an alias is marked
after the look-up, so a failed call for one fails again.
-/

namespace ApiChronicle

/-! ### Faults -/

/-- The fault of a mention at a version, judged by the registry alone. -/
inductive Mention.Fails (r : Registry) (v : Version) : Mention → ResolveError → Prop
  | undeclared {m e} (h : r.Undeclared v m.name e) : Fails r v m e
  | notAlias {n d} (declared : r.Declares v n d) (kind : d.kind ≠ .alias) :
      Fails r v (.alias n) (.notAlias n d.kind)

namespace Registry

variable {r : Registry} {v w : Version} {m : Mention} {n : QualifiedName} {e : ResolveError}
  {p : Pass} {ms : List Mention} {o : Outcome}

/-- What is declared is not undeclared. -/
theorem Undeclared.not_declares (h : r.Undeclared v n e) (d : Declaration) :
    ¬r.Declares v n d := by
  intro hd
  cases (declarationAt_eq_ok_iff.mpr hd).symm.trans (declarationAt_eq_error_iff.mpr h)

theorem Undeclared.unique {e' : ResolveError} (h : r.Undeclared v n e)
    (h' : r.Undeclared v n e') : e = e' :=
  Except.error.inj
    ((declarationAt_eq_error_iff.mpr h).symm.trans (declarationAt_eq_error_iff.mpr h'))

theorem declares_or_undeclared (r : Registry) (v : Version) (n : QualifiedName) :
    (∃ d, r.Declares v n d) ∨ ∃ e, r.Undeclared v n e := by
  cases h : r.declarationAt n v with
  | ok d => exact Or.inl ⟨d, declarationAt_eq_ok_iff.mp h⟩
  | error e => exact Or.inr ⟨e, declarationAt_eq_error_iff.mp h⟩

/-! ### Single mentions -/

theorem resolve_of_marked (marked : (m.name, v) ∈ p.marks) : r.resolve v m p = .ok p :=
  resolveWithin_of_marked marked

/-- A mention that was not met before fails with its fault. -/
theorem resolve_of_fails (h : m.Fails r v e) (fresh : (m.name, v) ∉ p.marks) :
    (r.resolve v m p).result = .error e := by
  unfold resolve
  cases h with
  | undeclared h =>
      rw [depth, resolveWithin_of_unknown fresh (declarationAt_eq_error_iff.mpr h)]
      rfl
  | notAlias declared kind =>
      rw [Mention.name_alias] at fresh
      rw [resolveWithin_of_mismatch fresh declared kind]
      rfl

/-- A failed call for an alias leaves the pass as it was. -/
theorem pass_of_resolve_alias (h : (r.resolve v (.alias n) p).result = .error e) :
    (r.resolve v (.alias n) p).pass = p := by
  by_cases hmarked : (n, v) ∈ p.marks
  · rw [resolve_of_marked hmarked]
    rfl
  rcases declares_or_undeclared r v n with ⟨d, hd⟩ | ⟨e', hfault⟩
  · by_cases hkind : d.kind = .alias
    · obtain ⟨shape, rfl⟩ := Shape.kind_eq_alias_iff.mp hkind
      rw [resolve, depth, resolveWithin_of_alias hmarked hd] at h
      cases h
    · rw [resolve, resolveWithin_of_mismatch hmarked hd hkind]
      rfl
  · rw [resolve, depth, resolveWithin_of_unknown hmarked (declarationAt_eq_error_iff.mpr hfault)]
    rfl

/-- A call for a declaration marks its name, however it ends. -/
theorem marked_of_resolve_declaration (r : Registry) (v : Version) (n : QualifiedName)
    (p : Pass) : (n, v) ∈ (r.resolve v (.declaration n) p).pass.marks := by
  have hwalk := r.resolve_resolves v (.declaration n) p
  generalize r.resolve v (.declaration n) p = o at hwalk ⊢
  cases hwalk with
  | skip marked tail => exact tail.grows.marks marked
  | unknown _ _ => exact Pass.mem_marks_mark.mpr (Or.inl ⟨rfl, rfl⟩)
  | «alias» _ _ tail => exact tail.grows.marks (by simp)
  | enter _ _ _ inner tail => exact tail.grows.marks (inner.grows.marks (by simp))
  | enterFails _ _ _ inner => exact inner.grows.marks (by simp)

/-- A walk that marks an undeclared name fails with its fault. -/
theorem Resolves.fails_of_marked (h : r.Resolves v ms p o) (hn : (n, w) ∈ o.pass.marks)
    (hfault : r.Undeclared w n e) : (n, w) ∈ p.marks ∨ o.result = .error e := by
  induction h with
  | done => exact Or.inl hn
  | skip _ _ ih => exact ih hn
  | @unknown m _ _ e' _ missing =>
      cases m with
      | «alias» _ => exact Or.inl hn
      | declaration a =>
          rcases Pass.mem_marks_mark.mp hn with ⟨rfl, rfl⟩ | hn
          · have hsame := (declarationAt_eq_error_iff.mp missing).unique hfault
            exact Or.inr (congrArg Except.error hsame)
          · exact Or.inl hn
  | «alias» _ declared _ ih =>
      refine (ih hn).imp_left fun hn => ?_
      rw [Pass.marks_report, Pass.mem_marks_mark] at hn
      rcases hn with ⟨rfl, rfl⟩ | hn
      · exact absurd declared (hfault.not_declares _)
      · exact hn
  | mismatch _ _ _ => exact Or.inl hn
  | enter _ declared _ _ _ ihInner ihTail =>
      refine (ihTail hn).imp_left fun hn => ?_
      rcases ihInner hn with hn | hfails
      · rcases Pass.mem_marks_mark.mp hn with ⟨rfl, rfl⟩ | hn
        · exact absurd declared (hfault.not_declares _)
        · exact hn
      · cases hfails
  | enterFails _ declared _ _ ih =>
      refine (ih hn).imp_left fun hn => ?_
      rcases Pass.mem_marks_mark.mp hn with ⟨rfl, rfl⟩ | hn
      · exact absurd declared (hfault.not_declares _)
      · exact hn

end Registry

/-! ### Calls -/

/-- A call of the resolver. -/
inductive Call
  /-- Resolve what a use of a type mentions. -/
  | use (type : TypeUse) (version : Version)
  /-- Resolve the name of an alias or of a declaration. -/
  | name (mention : Mention) (version : Version)

namespace Call

def version : Call → Version
  | use _ version => version
  | name _ version => version

/-- What the call has to resolve. -/
def mentions : Call → List Mention
  | use type _ => type.mentions
  | name mention _ => [mention]

/-- The end of the call. -/
def run (r : Registry) (p : Pass) : Call → Outcome
  | use type version => r.resolveUse version type p
  | name mention version => r.resolve version mention p

theorem run_resolves (c : Call) (r : Registry) (p : Pass) :
    r.Resolves c.version c.mentions p (c.run r p) := by
  cases c with
  | use type version => exact r.resolveMentions_resolves version type.mentions p
  | name mention version => exact r.resolve_resolves version mention p

end Call

namespace Registry

/-- Calls with their answers, the latest one first, and the pass that they leave. -/
inductive Series (r : Registry) : List (Call × Except ResolveError Unit) → Pass → Prop
  | start : Series r [] .empty
  | call {history p} (earlier : Series r history p) (c : Call) :
      Series r ((c, (c.run r p).result) :: history) (c.run r p).pass

/-- A call has led to the name at the version. If the name is undeclared, the call has failed
with this fault. -/
def Met (r : Registry) (history : List (Call × Except ResolveError Unit)) (v : Version)
    (n : QualifiedName) : Prop :=
  ∃ c answer, (c, answer) ∈ history ∧ c.version = v ∧ r.Reachable v (mentioned c.mentions) n ∧
    ∀ e, r.Undeclared v n e → answer = .error e

variable {r : Registry} {history : List (Call × Except ResolveError Unit)} {p : Pass}
  {v : Version} {n : QualifiedName} {e : ResolveError}

/-- **Marks come from calls.** -/
theorem Series.met_of_marked (h : r.Series history p) (hn : (n, v) ∈ p.marks) :
    r.Met history v n := by
  induction h with
  | start => exact absurd hn List.not_mem_nil
  | @call history p earlier c ih =>
      by_cases hold : (n, v) ∈ p.marks
      · obtain ⟨c', answer, hmem, hrest⟩ := ih hold
        exact ⟨c', answer, List.mem_cons_of_mem _ hmem, hrest⟩
      have hwalk := c.run_resolves r p
      rcases hwalk.reachable_of_marked hn with hn' | ⟨rfl, hreach⟩
      · exact absurd hn' hold
      · refine ⟨c, _, List.mem_cons_self, rfl, hreach, fun e hfault => ?_⟩
        exact (hwalk.fails_of_marked hn hfault).resolve_left hold

/-- **A fault is told once.** After any series of calls, a name that cannot be resolved gets
its fault as an answer, or else an earlier call has met the name and, if it is undeclared, has
failed for it. A call that succeeds mentions declared names only, apart from those that an
earlier call has failed for. A failed call for an alias fails again, with the same fault, but
a call for a declaration is a success when it is repeated, whatever it was. -/
theorem fault_told_once (h : r.Series history p) :
    (∀ m v e, m.Fails r v e → (r.resolve v m p).result = .error e ∨
      (r.resolve v m p).result = .ok () ∧ r.Met history v m.name) ∧
    (∀ c : Call, (c.run r p).result = .ok () → ∀ m ∈ c.mentions,
      (∃ d, r.Declares c.version m.name d) ∨
      ∃ c' e, (c', .error e) ∈ history ∧ c'.version = c.version ∧
        r.Undeclared c.version m.name e) ∧
    (∀ n v e, (r.resolve v (.alias n) p).result = .error e →
      (r.resolve v (.alias n) (r.resolve v (.alias n) p).pass).result = .error e) ∧
    ∀ n v, (r.resolve v (.declaration n) (r.resolve v (.declaration n) p).pass).result =
      .ok () := by
  refine ⟨fun m v e hfault => ?_, fun c hok m hm => ?_, fun n v e herr => ?_, fun n v => ?_⟩
  · by_cases hmarked : (m.name, v) ∈ p.marks
    · rw [resolve_of_marked hmarked]
      exact Or.inr ⟨rfl, h.met_of_marked hmarked⟩
    · exact Or.inl (resolve_of_fails hfault hmarked)
  · rcases declares_or_undeclared r c.version m.name with hd | ⟨e, hfault⟩
    · exact Or.inl hd
    have hwalk := c.run_resolves r p
    have hmarked := hwalk.covers hok hm
    rcases hwalk.fails_of_marked hmarked hfault with hold | hfails
    · obtain ⟨c', answer, hmem, hversion, -, htold⟩ := h.met_of_marked hold
      obtain rfl := htold e hfault
      exact Or.inr ⟨c', e, hmem, hversion, hfault⟩
    · cases hok.symm.trans hfails
  · rw [pass_of_resolve_alias herr]
    exact herr
  · rw [resolve_of_marked (marked_of_resolve_declaration r v n p)]
    rfl

end Registry

/-! ### Nodes without IDs -/

namespace NodeTree

/-- The type of a node's IDs is missing. A call for the node fails with this, and so does the
next one for the IDs, but not another one for the node. -/
theorem fault_told_once_nodes :
    ∃ p, withoutIds.registry.Series
        [(.name (.declaration node) .classic, .error (.missing nodeId))] p ∧
      (withoutIds.registry.resolve .classic (.alias nodeId) p).result =
        .error (.missing nodeId) ∧
      (withoutIds.registry.resolve .classic (.declaration node) p).result = .ok () := by
  have h : withoutIds.registry.Series _ _ := .call .start (.name (.declaration node) .classic)
  have hfails : ((Call.name (.declaration node) .classic).run withoutIds.registry .empty).result =
      .error (.missing nodeId) := by decide
  rw [hfails] at h
  obtain ⟨-, -, -, hagain⟩ := Registry.fault_told_once (r := withoutIds.registry) .start
  obtain ⟨htold, -⟩ := Registry.fault_told_once h
  refine ⟨_, h, ?_, hagain node .classic⟩
  refine (htold (.alias nodeId) .classic _ (.undeclared (.missing (by decide)))).resolve_right ?_
  exact fun hmet => absurd hmet.1 (by decide)

/-- A name that was never registered is refused once and accepted from then on. -/
theorem accepted_unregistered :
    ¬∀ (r : Registry) history p, r.Series history p → ∀ n v, r.get? n = none →
      (r.resolve v (.declaration n) p).result = .error (.missing n) := by
  intro hdocumented
  have hmissing := hdocumented ⟨.empty, .empty⟩ _ _
    (.call .start (.name (.declaration node) .classic)) node .classic rfl
  exact absurd hmissing (by decide)

end NodeTree

end ApiChronicle
