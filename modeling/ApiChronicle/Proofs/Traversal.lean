import ApiChronicle.Proofs.Reachability

/-! # ApiChronicle.Proofs.Traversal

**How a resolution walks** through the declarations, and what it has met when it
ends.

`Registry.Resolves` is the walk as a judgement: one rule for each thing the
resolver can do with the next mention. It has no bound on the depth, so a walk
through a cycle is finite only because a marked name is skipped.
`resolveAll_resolves` says that the bounded resolver walks like this whenever its
bound exceeds the number of names it could still mark, and
`resolveMentions_resolves` that the bound it starts from always does.

## What a walk keeps

Each fact below is one induction over the judgement.

* `Resolves.grows`: marks and reports are never lost.
* `Resolves.covers`: a successful walk has marked every mention it was given.
* `Resolves.reachable_of_marked`: it marks nothing but what the mentions lead to.
* `Resolves.settled`: whatever a successful walk has marked it has also finished.
  While a walk is under way there are marked names whose declarations are still
  being entered, so this is said of the names that the walk itself has marked.
* `Resolves.faithful`: a report shows the declaration of its name.
* `Resolves.reported_iff_reachable`: from nothing, a successful walk reports exactly
  what its mentions lead to.
* `Resolves.blames`: a failed walk names a reachable name that cannot be resolved.
-/

namespace ApiChronicle

@[simp] theorem Mention.name_alias (n : QualifiedName) : (Mention.alias n).name = n := rfl

@[simp] theorem Mention.name_declaration (n : QualifiedName) :
    (Mention.declaration n).name = n := rfl

theorem Shape.kind_eq_alias_iff {π ι : Type} {s : Shape π ι} :
    s.kind = .alias ↔ ∃ shape, s = .alias shape := by
  constructor
  · intro h
    cases s with
    | «alias» shape => exact ⟨shape, rfl⟩
    | _ => cases h
  · intro h
    obtain ⟨shape, rfl⟩ := h
    rfl

/-! ### Passes and outcomes -/

namespace Pass

variable {p : Pass} {n n' : QualifiedName} {v w : Version} {rep : Report}

theorem isMarked_iff : p.isMarked n v = true ↔ (n, v) ∈ p.marks := by
  simp [isMarked]

theorem isMarked_eq_false_iff : p.isMarked n v = false ↔ (n, v) ∉ p.marks := by
  simp [isMarked]

@[simp] theorem mem_marks_mark :
    (n', w) ∈ (p.mark n v).marks ↔ (n' = n ∧ w = v) ∨ (n', w) ∈ p.marks := by
  simp [mark]

@[simp] theorem marks_report : (p.report rep).marks = p.marks := rfl

@[simp] theorem mem_reports_report {x : Report} :
    x ∈ (p.report rep).reports ↔ x ∈ p.reports ∨ x = rep := by
  simp [report]

/-- The pass at the look-up of a fresh mention. A declaration has been marked by
then; an alias is marked only after the look-up. -/
def lookingUp (p : Pass) (v : Version) : Mention → Pass
  | .alias _ => p
  | .declaration n => p.mark n v

/-- A later pass of a series: it has met and reported at least as much. -/
structure Extends (p q : Pass) : Prop where
  marks : p.marks ⊆ q.marks
  reports : p.reports ⊆ q.reports

namespace Extends

theorem refl (p : Pass) : Extends p p := ⟨fun _ h => h, fun _ h => h⟩

theorem trans {p q s : Pass} (h : Extends p q) (h' : Extends q s) : Extends p s :=
  ⟨fun _ hx => h'.marks (h.marks hx), fun _ hx => h'.reports (h.reports hx)⟩

theorem mark (p : Pass) (n : QualifiedName) (v : Version) : Extends p (p.mark n v) :=
  ⟨fun _ h => List.mem_cons_of_mem _ h, fun _ h => h⟩

theorem report (p : Pass) (rep : Report) : Extends p (p.report rep) :=
  ⟨fun _ h => h, fun _ h => List.mem_append_left _ h⟩

end Extends

end Pass

namespace Outcome

@[simp] theorem andThen_ok (p : Pass) (next : Pass → Outcome) : (ok p).andThen next = next p := rfl

@[simp] theorem andThen_fail (e : ResolveError) (p : Pass) (next : Pass → Outcome) :
    (fail e p).andThen next = fail e p := rfl

/-- A resolution has succeeded or failed. -/
theorem cases (o : Outcome) : (∃ p, o = ok p) ∨ ∃ e p, o = fail e p := by
  obtain ⟨result, p⟩ := o
  cases result with
  | ok u => exact Or.inl ⟨p, rfl⟩
  | error e => exact Or.inr ⟨e, p, rfl⟩

end Outcome

/-! ### Reports and faults -/

/-- A report shows the declaration of its name at the version. -/
def Report.Faithful (r : Registry) (v : Version) : Report → Prop
  | .alias n shape => r.Declares v n (.alias shape)
  | .declaration n schema => ∃ d, r.Declares v n d ∧ d.kind ≠ .alias ∧ schema = d.resolved

/-- The fault is about a name, and the name really has it. -/
def ResolveError.Blames (r : Registry) (v : Version) (n : QualifiedName) : ResolveError → Prop
  | .missing n' => n' = n ∧ r.get? n = none
  | .unavailable n' w =>
    n' = n ∧ w = v ∧ ∃ history, r.get? n = some history ∧ history.at? v = none
  | .notAlias n' kind => n' = n ∧ kind ≠ .alias ∧ ∃ d, r.Declares v n d ∧ d.kind = kind

namespace Registry

/-! ### The walk -/

/-- Resolving mentions from left to right leads from a pass to an outcome. -/
inductive Resolves (r : Registry) (v : Version) : List Mention → Pass → Outcome → Prop
  /-- Nothing is left. -/
  | done {p} : Resolves r v [] p (.ok p)
  /-- A marked name is skipped, however it is mentioned. -/
  | skip {m rest p o} (marked : (m.name, v) ∈ p.marks) (tail : Resolves r v rest p o) :
      Resolves r v (m :: rest) p o
  /-- The name is not declared at the version. -/
  | unknown {m rest p e} (fresh : (m.name, v) ∉ p.marks)
      (missing : r.declarationAt m.name v = .error e) :
      Resolves r v (m :: rest) p
        (.fail e (p.lookingUp v m))
  /-- An alias is marked and reported, on either route. -/
  | alias {m rest p o shape} (fresh : (m.name, v) ∉ p.marks)
      (declared : r.Declares v m.name (.alias shape))
      (tail : Resolves r v rest ((p.mark m.name v).report (.alias m.name shape)) o) :
      Resolves r v (m :: rest) p o
  /-- Something else was mentioned as an alias. -/
  | mismatch {n rest p d} (fresh : (n, v) ∉ p.marks) (declared : r.Declares v n d)
      (kind : d.kind ≠ .alias) :
      Resolves r v (.alias n :: rest) p (.fail (.notAlias n d.kind) p)
  /-- A declaration is marked, entered and, once all it mentions is resolved, reported. -/
  | enter {n rest p p' o d} (fresh : (n, v) ∉ p.marks) (declared : r.Declares v n d)
      (kind : d.kind ≠ .alias)
      (inner : Resolves r v (Shape.mentions d.resolved) (p.mark n v) (.ok p'))
      (tail : Resolves r v rest (p'.report (.declaration n d.resolved)) o) :
      Resolves r v (.declaration n :: rest) p o
  /-- Something that a declaration mentions fails. -/
  | enterFails {n rest p p' d e} (fresh : (n, v) ∉ p.marks) (declared : r.Declares v n d)
      (kind : d.kind ≠ .alias)
      (inner : Resolves r v (Shape.mentions d.resolved) (p.mark n v) (.fail e p')) :
      Resolves r v (.declaration n :: rest) p (.fail e p')

namespace Resolves

variable {r : Registry} {v : Version} {ms : List Mention} {p : Pass} {o : Outcome}

/-- Marks and reports are never lost. -/
theorem grows (h : r.Resolves v ms p o) : p.Extends o.pass := by
  induction h with
  | done => exact .refl _
  | skip _ _ ih => exact ih
  | @unknown m _ p _ _ _ =>
      cases m with
      | «alias» _ => exact .refl _
      | declaration n => exact .mark p n v
  | «alias» _ _ _ ih => exact ((Pass.Extends.mark ..).trans (.report ..)).trans ih
  | mismatch _ _ _ => exact .refl _
  | enter _ _ _ _ _ ihInner ihTail =>
      exact ((Pass.Extends.mark ..).trans ihInner).trans ((Pass.Extends.report ..).trans ihTail)
  | enterFails _ _ _ _ ih => exact (Pass.Extends.mark ..).trans ih

/-- A successful walk has marked every mention it was given. -/
theorem covers (h : r.Resolves v ms p o) (hok : o.result = .ok ()) {m : Mention} (hm : m ∈ ms) :
    (m.name, v) ∈ o.pass.marks := by
  induction h with
  | done => exact absurd hm List.not_mem_nil
  | skip marked tail ih =>
      rcases List.mem_cons.mp hm with rfl | hm
      · exact tail.grows.marks marked
      · exact ih hok hm
  | unknown _ _ => cases hok
  | «alias» _ _ tail ih =>
      rcases List.mem_cons.mp hm with rfl | hm
      · exact tail.grows.marks (by simp)
      · exact ih hok hm
  | mismatch _ _ _ => cases hok
  | enter _ _ _ inner tail _ ihTail =>
      rcases List.mem_cons.mp hm with rfl | hm
      · exact tail.grows.marks (inner.grows.marks (by simp))
      · exact ihTail hok hm
  | enterFails _ _ _ _ _ => cases hok

end Resolves

/-! ### The resolver takes these steps -/

section Steps

variable {r : Registry} {v : Version} {p : Pass} {depth : Nat} {n : QualifiedName}
  {d : Declaration} {e : ResolveError}

theorem resolveWithin_of_marked {m : Mention} (marked : (m.name, v) ∈ p.marks) :
    r.resolveWithin v depth m p = .ok p := by
  have hm : p.isMarked m.name v = true := Pass.isMarked_iff.mpr marked
  cases m with
  | «alias» n =>
      rw [Mention.name_alias] at hm
      rw [resolveWithin, resolveAlias, if_pos hm]
  | declaration n =>
      rw [Mention.name_declaration] at hm
      cases depth with
      | zero => rw [resolveWithin]
      | succ depth => rw [resolveWithin, if_pos hm]

theorem resolveAlias_of_fresh (fresh : (n, v) ∉ p.marks) :
    r.resolveAlias v n p = match r.declarationAt n v with
      | .error e => .fail e p
      | .ok (.alias shape) => .ok ((p.mark n v).report (.alias n shape))
      | .ok declaration => .fail (.notAlias n declaration.kind) p := by
  have hm : ¬p.isMarked n v = true := fun hm => fresh (Pass.isMarked_iff.mp hm)
  rw [resolveAlias]
  exact if_neg hm

theorem resolveWithin_declaration_of_fresh (fresh : (n, v) ∉ p.marks) :
    r.resolveWithin v (depth + 1) (.declaration n) p = match r.declarationAt n v with
      | .error e => .fail e (p.mark n v)
      | .ok (.alias shape) => .ok ((p.mark n v).report (.alias n shape))
      | .ok declaration =>
        (resolveAll (r.resolveWithin v depth) declaration.resolved.mentions (p.mark n v)).andThen
          fun p => .ok (p.report (.declaration n declaration.resolved)) := by
  have hm : ¬p.isMarked n v = true := fun hm => fresh (Pass.isMarked_iff.mp hm)
  rw [resolveWithin]
  exact if_neg hm

theorem resolveWithin_of_unknown {m : Mention} (fresh : (m.name, v) ∉ p.marks)
    (missing : r.declarationAt m.name v = .error e) :
    r.resolveWithin v (depth + 1) m p = .fail e (p.lookingUp v m) := by
  cases m with
  | «alias» n =>
      rw [Mention.name_alias] at fresh missing
      rw [resolveWithin, resolveAlias_of_fresh fresh, missing]
      rfl
  | declaration n =>
      rw [Mention.name_declaration] at fresh missing
      rw [resolveWithin_declaration_of_fresh fresh, missing]
      rfl

theorem resolveWithin_of_alias {m : Mention} {shape : AliasShape}
    (fresh : (m.name, v) ∉ p.marks) (declared : r.Declares v m.name (.alias shape)) :
    r.resolveWithin v (depth + 1) m p =
      .ok ((p.mark m.name v).report (.alias m.name shape)) := by
  have hd := declarationAt_eq_ok_iff.mpr declared
  cases m with
  | «alias» n =>
      rw [Mention.name_alias] at fresh hd ⊢
      rw [resolveWithin, resolveAlias_of_fresh fresh, hd]
  | declaration n =>
      rw [Mention.name_declaration] at fresh hd ⊢
      rw [resolveWithin_declaration_of_fresh fresh, hd]

theorem resolveWithin_of_mismatch (fresh : (n, v) ∉ p.marks) (declared : r.Declares v n d)
    (kind : d.kind ≠ .alias) :
    r.resolveWithin v depth (.alias n) p = .fail (.notAlias n d.kind) p := by
  rw [resolveWithin, resolveAlias_of_fresh fresh, declarationAt_eq_ok_iff.mpr declared]
  cases d with
  | «alias» shape => exact absurd rfl kind
  | _ => rfl

theorem resolveWithin_of_enter (fresh : (n, v) ∉ p.marks) (declared : r.Declares v n d)
    (kind : d.kind ≠ .alias) :
    r.resolveWithin v (depth + 1) (.declaration n) p =
      (resolveAll (r.resolveWithin v depth) (Shape.mentions d.resolved) (p.mark n v)).andThen
        fun p => .ok (p.report (.declaration n d.resolved)) := by
  rw [resolveWithin_declaration_of_fresh fresh, declarationAt_eq_ok_iff.mpr declared]
  cases d with
  | «alias» shape => exact absurd rfl kind
  | _ => rfl

end Steps

/-! ### The bound is never reached -/

section Bound

variable {r : Registry} {v : Version} {p q : Pass}

/-- How many declared names are not marked at the version. -/
def unmarked (r : Registry) (v : Version) (p : Pass) : Nat :=
  r.types.keys.countP fun n => !p.isMarked n v

theorem unmarked_lt_depth (r : Registry) (v : Version) (p : Pass) :
    r.unmarked v p < r.depth := by
  have hlen : r.types.keys.length = r.size := List.length_map ..
  have hle : r.unmarked v p ≤ r.types.keys.length := List.countP_le_length
  unfold depth
  omega

/-- Every name that is unmarked later was unmarked before. -/
theorem unmarked_anti (h : p.Extends q) : r.unmarked v q ≤ r.unmarked v p := by
  refine List.countP_mono_left fun n _ hn => ?_
  simp only [Bool.not_eq_true', Pass.isMarked_eq_false_iff] at hn ⊢
  exact fun hp => hn (h.marks hp)

/-- Marking a declared name leaves fewer names to mark. -/
theorem unmarked_mark_lt {n : QualifiedName} {d : Declaration} (declared : r.Declares v n d)
    (fresh : (n, v) ∉ p.marks) : r.unmarked v (p.mark n v) < r.unmarked v p := by
  -- the name is counted before it is marked and not after; no other name is counted anew
  obtain ⟨before, after, hkeys⟩ := List.append_of_mem declared.mem_keys
  have hmono : ∀ l : List QualifiedName,
      l.countP (fun x => !(p.mark n v).isMarked x v) ≤ l.countP (fun x => !p.isMarked x v) := by
    refine fun l => List.countP_mono_left fun x _ hx => ?_
    simp only [Bool.not_eq_true', Pass.isMarked_eq_false_iff] at hx ⊢
    exact fun hp => hx ((Pass.Extends.mark p n v).marks hp)
  have hnow : (p.mark n v).isMarked n v = true := Pass.isMarked_iff.mpr (by simp)
  have hthen : p.isMarked n v = false := Pass.isMarked_eq_false_iff.mpr fresh
  have hbefore := hmono before
  have hafter := hmono after
  unfold unmarked
  rw [hkeys]
  simp only [List.countP_append, List.countP_cons, hnow, hthen]
  simp only [Bool.not_true, Bool.false_eq_true, if_false, Bool.not_false, if_true]
  omega

/-- The bounded resolver walks by the rules while its bound exceeds the number of
names it could still mark. The inductions follow it: on the bound into a
declaration, on the list along its mentions. -/
theorem resolveAll_resolves {depth : Nat} {ms : List Mention} (hdepth : r.unmarked v p < depth) :
    r.Resolves v ms p (resolveAll (r.resolveWithin v depth) ms p) := by
  induction depth generalizing ms p with
  | zero => exact absurd hdepth (Nat.not_lt_zero _)
  | succ depth ihDepth =>
      induction ms generalizing p with
      | nil => exact .done
      | cons m rest ihRest =>
          rw [resolveAll]
          by_cases hm : (m.name, v) ∈ p.marks
          · rw [resolveWithin_of_marked hm, Outcome.andThen_ok]
            exact .skip hm (ihRest hdepth)
          cases hd : r.declarationAt m.name v with
          | error e =>
              rw [resolveWithin_of_unknown hm hd, Outcome.andThen_fail]
              exact .unknown hm hd
          | ok d =>
              have declared := declarationAt_eq_ok_iff.mp hd
              have hmark := unmarked_mark_lt declared hm
              by_cases kind : d.kind = .alias
              · obtain ⟨shape, rfl⟩ := Shape.kind_eq_alias_iff.mp kind
                rw [resolveWithin_of_alias hm declared, Outcome.andThen_ok]
                have hreport := unmarked_anti (r := r) (v := v)
                  (Pass.Extends.report (p.mark m.name v) (.alias m.name shape))
                exact .alias hm declared (ihRest (by omega))
              cases m with
              | «alias» n =>
                  rw [Mention.name_alias] at hm declared
                  rw [resolveWithin_of_mismatch hm declared kind, Outcome.andThen_fail]
                  exact .mismatch hm declared kind
              | declaration n =>
                  rw [Mention.name_declaration] at hm declared hmark
                  rw [resolveWithin_of_enter hm declared kind]
                  -- one bound less for one name less to mark
                  have inner : r.Resolves v (Shape.mentions d.resolved) (p.mark n v)
                      (resolveAll (r.resolveWithin v depth) (Shape.mentions d.resolved)
                        (p.mark n v)) := ihDepth (by omega)
                  rcases Outcome.cases (resolveAll (r.resolveWithin v depth)
                    (Shape.mentions d.resolved) (p.mark n v)) with ⟨p', ho⟩ | ⟨e, p', ho⟩
                  · rw [ho] at inner ⊢
                    have hreport := unmarked_anti (r := r) (v := v)
                      (inner.grows.trans (.report p' (.declaration n d.resolved)))
                    rw [Outcome.andThen_ok, Outcome.andThen_ok]
                    exact .enter hm declared kind inner (ihRest (by omega))
                  · rw [ho] at inner ⊢
                    rw [Outcome.andThen_fail, Outcome.andThen_fail]
                    exact .enterFails hm declared kind inner

/-- The resolver walks by the rules, from any pass. -/
theorem resolveMentions_resolves (r : Registry) (v : Version) (ms : List Mention) (p : Pass) :
    r.Resolves v ms p (r.resolveMentions v ms p) :=
  resolveAll_resolves (unmarked_lt_depth r v p)

/-- So it does with a single mention. -/
theorem resolve_resolves (r : Registry) (v : Version) (m : Mention) (p : Pass) :
    r.Resolves v [m] p (r.resolve v m p) := by
  have h := r.resolveMentions_resolves v [m] p
  rw [resolveMentions, resolveAll] at h
  rcases Outcome.cases (r.resolve v m p) with ⟨q, ho⟩ | ⟨e, q, ho⟩
  · rwa [ho] at h ⊢
  · rwa [ho] at h ⊢

end Bound

/-! ### What a walk has met -/

section Met

variable {r : Registry} {v : Version} {ms : List Mention} {p q : Pass} {o : Outcome}

theorem mentioned_tail (m : Mention) (ms : List Mention) :
    mentioned ms ⊆ mentioned (m :: ms) :=
  fun _ ⟨m', hm', hname⟩ => ⟨m', List.mem_cons_of_mem _ hm', hname⟩

theorem mentioned_head (m : Mention) (ms : List Mention) : m.name ∈ mentioned (m :: ms) :=
  ⟨m, List.mem_cons_self, rfl⟩

/-- A walk marks nothing but what its mentions lead to, and that at its own version. -/
theorem Resolves.reachable_of_marked (h : r.Resolves v ms p o) {n : QualifiedName} {w : Version}
    (hn : (n, w) ∈ o.pass.marks) :
    (n, w) ∈ p.marks ∨ (w = v ∧ r.Reachable v (mentioned ms) n) := by
  induction h with
  | done => exact Or.inl hn
  | @skip m rest _ _ _ _ ih =>
      exact (ih hn).imp id fun ⟨hw, hreach⟩ => ⟨hw, hreach.mono (mentioned_tail m rest)⟩
  | @unknown m rest p _ _ _ =>
      cases m with
      | «alias» _ => exact Or.inl hn
      | declaration a =>
          rcases Pass.mem_marks_mark.mp hn with ⟨rfl, rfl⟩ | hn
          · exact Or.inr ⟨rfl, .start (mentioned_head ..)⟩
          · exact Or.inl hn
  | @«alias» m rest _ _ _ _ _ _ ih =>
      rcases ih hn with hn | ⟨hw, hreach⟩
      · rw [Pass.marks_report, Pass.mem_marks_mark] at hn
        rcases hn with ⟨rfl, rfl⟩ | hn
        · exact Or.inr ⟨rfl, .start (mentioned_head ..)⟩
        · exact Or.inl hn
      · exact Or.inr ⟨hw, hreach.mono (mentioned_tail m rest)⟩
  | mismatch _ _ _ => exact Or.inl hn
  | @enter a rest _ _ _ _ _ declared _ _ _ ihInner ihTail =>
      rcases ihTail hn with hn | ⟨hw, hreach⟩
      · rcases ihInner hn with hn | ⟨hw, hreach⟩
        · rcases Pass.mem_marks_mark.mp hn with ⟨rfl, rfl⟩ | hn
          · exact Or.inr ⟨rfl, .start (mentioned_head ..)⟩
          · exact Or.inl hn
        · exact Or.inr ⟨hw, hreach.of_declares (.start (mentioned_head ..)) declared⟩
      · exact Or.inr ⟨hw, hreach.mono (mentioned_tail (.declaration a) rest)⟩
  | enterFails _ declared _ _ ih =>
      rcases ih hn with hn | ⟨hw, hreach⟩
      · rcases Pass.mem_marks_mark.mp hn with ⟨rfl, rfl⟩ | hn
        · exact Or.inr ⟨rfl, .start (mentioned_head ..)⟩
        · exact Or.inl hn
      · exact Or.inr ⟨hw, hreach.of_declares (.start (mentioned_head ..)) declared⟩

/-- What holds of a name that a successful walk has finished: it is declared,
everything it refers to has been met, and it has been reported. -/
structure Settled (r : Registry) (v : Version) (p : Pass) (n : QualifiedName) : Prop where
  declared : ∃ d, r.Declares v n d
  closed : ∀ b, r.RefersTo v n b → (b, v) ∈ p.marks
  reported : ∃ rep ∈ p.reports, rep.name = n

theorem Settled.extend {n : QualifiedName} (h : r.Settled v p n) (hpq : p.Extends q) :
    r.Settled v q n where
  declared := h.declared
  closed b href := hpq.marks (h.closed b href)
  reported := h.reported.imp fun _ hrep => ⟨hpq.reports hrep.1, hrep.2⟩

/-- Whatever a successful walk has marked it has also finished, cycles included. -/
theorem Resolves.settled (h : r.Resolves v ms p o) (hok : o.result = .ok ()) {n : QualifiedName}
    (hn : (n, v) ∈ o.pass.marks) : (n, v) ∈ p.marks ∨ r.Settled v o.pass n := by
  induction h with
  | done => exact Or.inl hn
  | skip _ _ ih => exact ih hok hn
  | unknown _ _ => cases hok
  | «alias» _ declared tail ih =>
      rcases ih hok hn with hn | hn
      · rw [Pass.marks_report, Pass.mem_marks_mark] at hn
        rcases hn with ⟨rfl, -⟩ | hn
        · refine Or.inr ⟨⟨_, declared⟩, fun b href => ?_, ?_⟩
          · obtain ⟨m, hm, -⟩ := (refersTo_iff_mention declared).mp href
            exact absurd hm List.not_mem_nil
          · exact ⟨_, tail.grows.reports (Pass.mem_reports_report.mpr (Or.inr rfl)), rfl⟩
        · exact Or.inl hn
      · exact Or.inr hn
  | mismatch _ _ _ => cases hok
  | enter _ declared _ inner tail ihInner ihTail =>
      rcases ihTail hok hn with hn | hn
      · rcases ihInner rfl hn with hn | hn
        · rcases Pass.mem_marks_mark.mp hn with ⟨rfl, -⟩ | hn
          · -- the name that was entered: its references were the mentions of the inner walk
            refine Or.inr ⟨⟨_, declared⟩, fun b href => ?_, ?_⟩
            · obtain ⟨m, hm, rfl⟩ := (refersTo_iff_mention declared).mp href
              exact tail.grows.marks (inner.covers rfl hm)
            · exact ⟨_, tail.grows.reports (Pass.mem_reports_report.mpr (Or.inr rfl)), rfl⟩
          · exact Or.inl hn
        · exact Or.inr (hn.extend ((Pass.Extends.report ..).trans tail.grows))
      · exact Or.inr hn
  | enterFails _ _ _ _ _ => cases hok

/-- Every report of a walk is faithful and about a marked name. -/
theorem Resolves.faithful (h : r.Resolves v ms p o) {rep : Report}
    (hrep : rep ∈ o.pass.reports) :
    rep ∈ p.reports ∨ (rep.Faithful r v ∧ (rep.name, v) ∈ o.pass.marks) := by
  induction h with
  | done => exact Or.inl hrep
  | skip _ _ ih => exact ih hrep
  | @unknown m _ _ _ _ _ => cases m <;> exact Or.inl hrep
  | «alias» _ declared tail ih =>
      rcases ih hrep with hrep | hrep
      · rcases Pass.mem_reports_report.mp hrep with hrep | rfl
        · exact Or.inl hrep
        · exact Or.inr ⟨declared, tail.grows.marks (Pass.mem_marks_mark.mpr (Or.inl ⟨rfl, rfl⟩))⟩
      · exact Or.inr hrep
  | mismatch _ _ _ => exact Or.inl hrep
  | enter _ declared kind inner tail ihInner ihTail =>
      rcases ihTail hrep with hrep | hrep
      · rcases Pass.mem_reports_report.mp hrep with hrep | rfl
        · rcases ihInner hrep with hrep | ⟨hfaithful, hmark⟩
          · exact Or.inl hrep
          · exact Or.inr ⟨hfaithful, tail.grows.marks hmark⟩
        · refine Or.inr ⟨⟨_, declared, kind, rfl⟩, tail.grows.marks (inner.grows.marks ?_)⟩
          exact Pass.mem_marks_mark.mpr (Or.inl ⟨rfl, rfl⟩)
      · exact Or.inr hrep
  | enterFails _ _ _ _ ih => exact ih hrep

/-- From the pass that has met nothing, a successful walk marks what its mentions
lead to. -/
theorem Resolves.marked_iff_reachable (h : r.Resolves v ms .empty o) (hok : o.result = .ok ())
    {n : QualifiedName} : (n, v) ∈ o.pass.marks ↔ r.Reachable v (mentioned ms) n := by
  constructor
  · intro hn
    rcases h.reachable_of_marked hn with hn | ⟨-, hreach⟩
    · exact absurd hn List.not_mem_nil
    · exact hreach
  · intro hreach
    have hstart : mentioned ms ⊆ {a | (a, v) ∈ o.pass.marks} := by
      intro a ha
      obtain ⟨m, hm, rfl⟩ := ha
      exact h.covers hok hm
    -- the marks are closed under references because each of them is settled
    refine hreach.mem_of_closed hstart fun a ha b href => ?_
    rcases h.settled hok ha with ha | ha
    · exact absurd ha List.not_mem_nil
    · exact ha.closed b href

/-- So does what it reports. -/
theorem Resolves.reported_iff_reachable (h : r.Resolves v ms .empty o)
    (hok : o.result = .ok ()) {n : QualifiedName} :
    (∃ rep ∈ o.pass.reports, rep.name = n) ↔ r.Reachable v (mentioned ms) n := by
  rw [← h.marked_iff_reachable hok]
  constructor
  · intro hrep
    obtain ⟨rep, hrep, rfl⟩ := hrep
    rcases h.faithful hrep with hrep | ⟨-, hmark⟩
    · exact absurd hrep List.not_mem_nil
    · exact hmark
  · intro hn
    rcases h.settled hok hn with hn | hn
    · exact absurd hn List.not_mem_nil
    · exact hn.reported

end Met

/-! ### Why a walk fails -/

section Failure

variable {r : Registry} {v : Version} {ms : List Mention} {p : Pass} {o : Outcome}
  {e : ResolveError} {n : QualifiedName}

/-- A name has no declaration at a version, and this is the fault. -/
inductive Undeclared (r : Registry) (v : Version) (n : QualifiedName) : ResolveError → Prop
  | missing (unregistered : r.get? n = none) : Undeclared r v n (.missing n)
  | unavailable {history} (registered : r.get? n = some history)
      (absent : history.at? v = none) : Undeclared r v n (.unavailable n v)

/-- A look-up fails with the fault of the name. -/
theorem declarationAt_eq_error_iff : r.declarationAt n v = .error e ↔ r.Undeclared v n e := by
  constructor
  · intro h
    unfold declarationAt at h
    split at h
    · next hget =>
      obtain rfl := Except.error.inj h
      exact .missing hget
    · next history hget =>
      split at h
      · next hat =>
        obtain rfl := Except.error.inj h
        exact .unavailable hget hat
      · cases h
  · intro h
    unfold declarationAt
    cases h with
    | missing unregistered => rw [unregistered]
    | unavailable registered absent => simp [registered, absent]

theorem blames_of_declarationAt (h : r.declarationAt n v = .error e) : e.Blames r v n := by
  cases declarationAt_eq_error_iff.mp h with
  | missing unregistered => exact ⟨rfl, unregistered⟩
  | unavailable registered absent => exact ⟨rfl, rfl, _, registered, absent⟩

/-- A failed walk names a reachable name that cannot be resolved. -/
theorem Resolves.blames (h : r.Resolves v ms p o) (herr : o.result = .error e) :
    ∃ n, r.Reachable v (mentioned ms) n ∧ e.Blames r v n := by
  induction h with
  | done => cases herr
  | @skip m rest _ _ _ _ ih =>
      obtain ⟨n, hreach, hblames⟩ := ih herr
      exact ⟨n, hreach.mono (mentioned_tail m rest), hblames⟩
  | unknown _ missing =>
      obtain rfl := Except.error.inj herr
      exact ⟨_, .start (mentioned_head ..), blames_of_declarationAt missing⟩
  | @«alias» m rest _ _ _ _ _ _ ih =>
      obtain ⟨n, hreach, hblames⟩ := ih herr
      exact ⟨n, hreach.mono (mentioned_tail m rest), hblames⟩
  | mismatch _ declared kind =>
      obtain rfl := Except.error.inj herr
      exact ⟨_, .start (mentioned_head ..), rfl, kind, _, declared, rfl⟩
  | @enter a rest _ _ _ _ _ _ _ _ _ _ ihTail =>
      obtain ⟨n, hreach, hblames⟩ := ihTail herr
      exact ⟨n, hreach.mono (mentioned_tail (.declaration a) rest), hblames⟩
  | enterFails _ declared _ _ ih =>
      obtain ⟨n, hreach, hblames⟩ := ih herr
      exact ⟨n, hreach.of_declares (.start (mentioned_head ..)) declared, hblames⟩

end Failure

end Registry

end ApiChronicle
