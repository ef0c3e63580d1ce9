import ApiChronicle.Proofs.CallSeries
import ApiChronicle.Proofs.OpenDeclarations
import Mathlib.Data.List.Perm.Subperm

/-! # ApiChronicle.Proofs.CallTermination

**What a series of calls costs**: how long a call can take, how deep it can go, and how much the
collectors receive.

References may form cycles, so none of this follows from the structure of a type. A call comes
to an end because its moves use up the declared names that are not marked yet
(`moves_wellFounded`). It never goes deeper than there are declared types, and one call further
for the last look at a name, because open declarations have different names
(`Coherent.nesting_le`). And the collectors receive a type at most once for each version: what a
call reports it has marked itself (`Resolves.exists_reports`), and no later call of the series
marks it again.
-/

namespace ApiChronicle

/-- How many calls for declarations are under way inside one another, that for the next mention
included. -/
def Moment.nesting (m : Moment) : Nat :=
  match m.todo with
  | .declaration _ :: _ => m.stack.length + 1
  | _ => m.stack.length

theorem Moment.nesting_le (m : Moment) : m.nesting ≤ m.stack.length + 1 := by
  unfold nesting
  split <;> omega

namespace Registry

variable {r : Registry} {v : Version} {ms : List Mention} {p : Pass} {m : Moment} {o : Outcome}

/-! ### Depth -/

/-- Open declarations are declared types with different names. -/
theorem Coherent.length_stack_le (h : r.Coherent v m) : m.stack.length ≤ r.size := by
  have hsub : m.names ⊆ r.types.keys := by
    intro n hn
    obtain ⟨d, hd, rfl⟩ := List.mem_map.mp hn
    exact (h.declared d hd).1.mem_keys
  calc m.stack.length = m.names.length := (List.length_map ..).symm
    _ ≤ r.types.keys.length := (h.nodup.subperm hsub).length_le
    _ = r.size := List.length_map ..

theorem Coherent.nesting_le (h : r.Coherent v m) : m.nesting ≤ r.size + 1 :=
  m.nesting_le.trans (Nat.add_le_add_right h.length_stack_le 1)

/-! ### Reports of one walk -/

/-- What a walk reports comes behind the reports that were there. It is about names that the
walk has marked, and about each of them once. -/
theorem Resolves.exists_reports (h : r.Resolves v ms p o) :
    ∃ new : List Report, o.pass.reports = p.reports ++ new ∧ (new.map Report.name).Nodup ∧
      ∀ n ∈ new.map Report.name, (n, v) ∉ p.marks ∧ (n, v) ∈ o.pass.marks := by
  induction h with
  | done => exact ⟨[], (List.append_nil _).symm, List.nodup_nil, nofun⟩
  | skip _ _ ih => exact ih
  | @unknown m _ p _ _ _ =>
      refine ⟨[], ?_, List.nodup_nil, nofun⟩
      cases m <;> exact (List.append_nil _).symm
  | @«alias» m _ p _ shape fresh _ tail ih =>
      obtain ⟨new, hnew, hnodup, hmarks⟩ := ih
      have hmarked : (m.name, v) ∈ ((p.mark m.name v).report (.alias m.name shape)).marks := by
        simp
      refine ⟨.alias m.name shape :: new, ?_, ?_, ?_⟩
      · rw [hnew, List.append_cons]
        rfl
      · exact List.nodup_cons.mpr ⟨fun hm => (hmarks _ hm).1 hmarked, hnodup⟩
      · refine List.forall_mem_cons.mpr ⟨⟨fresh, tail.grows.marks hmarked⟩, fun n hn => ?_⟩
        exact ⟨fun hold => (hmarks n hn).1 (List.mem_cons_of_mem _ hold), (hmarks n hn).2⟩
  | mismatch _ _ _ => exact ⟨[], (List.append_nil _).symm, List.nodup_nil, nofun⟩
  | @enter n rest p p' o d fresh _ _ inner tail ihInner ihTail =>
      obtain ⟨below, hbelow, hnodup, hmarks⟩ := ihInner
      obtain ⟨behind, hbehind, hnodup', hmarks'⟩ := ihTail
      have hmarked : (n, v) ∈ (p.mark n v).marks := by simp
      -- the declaration itself is reported between what it mentions and what comes behind it
      refine ⟨below ++ .declaration n d.resolved :: behind, ?_, ?_, ?_⟩
      · have hreport : (p'.report (.declaration n d.resolved)).reports =
            p.reports ++ below ++ [.declaration n d.resolved] :=
          congrArg (fun reports : List Report => reports ++ [.declaration n d.resolved]) hbelow
        rw [hbehind, hreport]
        simp
      · rw [List.map_append, List.map_cons, List.nodup_middle, List.nodup_cons,
          List.nodup_append', List.mem_append]
        refine ⟨?_, hnodup, hnodup', fun x hx hx' => ?_⟩
        · rintro (hn | hn)
          · exact (hmarks _ hn).1 hmarked
          · exact (hmarks' _ hn).1 (inner.grows.marks hmarked)
        · exact (hmarks' x hx').1 (hmarks x hx).2
      · intro x hx
        rw [List.map_append, List.map_cons, List.mem_append, List.mem_cons] at hx
        rcases hx with hx | rfl | hx
        · obtain ⟨hnew, hmet⟩ := hmarks x hx
          exact ⟨fun hold => hnew (List.mem_cons_of_mem _ hold), tail.grows.marks hmet⟩
        · exact ⟨fresh, tail.grows.marks (inner.grows.marks hmarked)⟩
        · obtain ⟨hnew, hmet⟩ := hmarks' x hx
          exact ⟨fun hold => hnew (inner.grows.marks (List.mem_cons_of_mem _ hold)), hmet⟩
  | enterFails _ _ _ _ ih =>
      obtain ⟨new, hnew, hnodup, hmarks⟩ := ih
      refine ⟨new, hnew, hnodup, fun n hn => ?_⟩
      exact ⟨fun hold => (hmarks n hn).1 (List.mem_cons_of_mem _ hold), (hmarks n hn).2⟩

end Registry

/-! ### Reports of a series -/

/-- What the collectors receive during a call. -/
def Call.received (r : Registry) (p : Pass) (c : Call) : List (QualifiedName × Version) :=
  ((c.run r p).pass.reports.drop p.reports.length).map fun rep => (rep.name, c.version)

namespace Registry

/-- The pass that calls leave, the latest of them first. -/
def passAfter (r : Registry) : List Call → Pass
  | [] => .empty
  | c :: earlier => (c.run r (r.passAfter earlier)).pass

/-- What the collectors receive during calls, the latest of them first. -/
def received (r : Registry) : List Call → List (QualifiedName × Version)
  | [] => []
  | c :: earlier => r.received earlier ++ c.received r (r.passAfter earlier)

variable {r : Registry} {history : List (Call × Except ResolveError Unit)} {p : Pass}

theorem Series.pass_eq (h : r.Series history p) : p = r.passAfter (history.map Prod.fst) := by
  induction h with
  | start => rfl
  | call _ c ih =>
      subst ih
      rfl

/-- During a call the collectors receive names that the call has marked at its version, each of
them once, and these are the names of the reports that it adds. -/
theorem received_of_call (r : Registry) (p : Pass) (c : Call) :
    (c.received r p).Nodup ∧ (∀ x ∈ c.received r p, x ∉ p.marks ∧ x ∈ (c.run r p).pass.marks) ∧
      (c.run r p).pass.reports.map Report.name =
        p.reports.map Report.name ++ (c.received r p).map Prod.fst := by
  obtain ⟨new, hnew, hnodup, hmarks⟩ := (c.run_resolves r p).exists_reports
  have hreceived : c.received r p = (new.map Report.name).map fun n => (n, c.version) := by
    rw [Call.received, hnew, List.drop_left, List.map_map]
    rfl
  rw [hreceived]
  refine ⟨hnodup.map fun _ _ h => (Prod.mk.inj h).1, fun x hx => ?_, ?_⟩
  · obtain ⟨n, hn, rfl⟩ := List.mem_map.mp hx
    exact hmarks n hn
  · rw [hnew, List.map_append, List.map_map]
    exact congrArg _ (List.map_id _).symm

/-- After any calls, the collectors have received marked names only, and each of them once for a
version. -/
theorem received_nodup (r : Registry) (calls : List Call) :
    (r.received calls).Nodup ∧ (∀ x ∈ r.received calls, x ∈ (r.passAfter calls).marks) ∧
      (r.received calls).map Prod.fst = (r.passAfter calls).reports.map Report.name := by
  induction calls with
  | nil => exact ⟨List.nodup_nil, nofun, rfl⟩
  | cons c earlier ih =>
      obtain ⟨hnodup, hmarks, hnames⟩ := ih
      obtain ⟨hnodup', hmarks', hnames'⟩ := received_of_call r (r.passAfter earlier) c
      have hgrows := (c.run_resolves r (r.passAfter earlier)).grows
      refine ⟨List.nodup_append'.mpr ⟨hnodup, hnodup', fun x hx hx' => ?_⟩, fun x hx => ?_, ?_⟩
      · exact (hmarks' x hx').1 (hmarks x hx)
      · rcases List.mem_append.mp hx with hx | hx
        · exact hgrows.marks (hmarks x hx)
        · exact (hmarks' x hx).2
      · rw [received, passAfter, List.map_append, hnames, hnames']

/-- **Calls come to an end and report each type once.** In every registry and after any series of
calls, a further call at any version has no infinite series of moves. Each moment on its way lies
within as many nested calls for declarations as there are declared types, and one more; it moves
on, or it has ended with the answer of the call. Over the series, the collectors have received no
name twice at one version. -/
theorem Series.terminates_reporting_once (h : r.Series history p) :
    (∀ c : Call,
      Acc (fun later earlier => r.Moves c.version earlier later) (.start p c.mentions) ∧
      ∀ m, r.Leads c.version (.start p c.mentions) m → m.nesting ≤ r.size + 1 ∧
        ((∃ m', r.Moves c.version m m') ∨ r.Ends c.version m (c.run r p))) ∧
    (r.received (history.map Prod.fst)).Nodup ∧
    (r.received (history.map Prod.fst)).map Prod.fst = p.reports.map Report.name := by
  obtain ⟨hnodup, -, hnames⟩ := r.received_nodup (history.map Prod.fst)
  refine ⟨fun c => ⟨(r.moves_wellFounded c.version).apply _, fun m hm => ?_⟩, hnodup, ?_⟩
  · exact ⟨hm.coherent.nesting_le, (c.run_resolves r p).moves_or_ends hm⟩
  · rw [hnames, h.pass_eq]

end Registry

/-! ### A node among nodes -/

namespace NodeTree

/-- The nodes form a cycle. Calls that walk through it at two versions report the types twice,
once for each, and one more call at a third version comes to an end as well, at most four calls
deep. -/
theorem terminates_reporting_once_nodes :
    ∃ p, definition.registry.Series
        [(.name (.declaration node) .dated20190221, .ok ()),
          (.use (.arrayOf (.declaration node)) .classic, .ok ())] p ∧
      Acc (fun later earlier => definition.registry.Moves .latest earlier later)
        (.start p [.declaration node]) ∧
      (∀ m, definition.registry.Leads .latest (.start p [.declaration node]) m →
        m.nesting ≤ 4) ∧
      [(nodeId, Version.classic), (node, .classic), (nodeId, .dated20190221),
        (node, .dated20190221)].Nodup ∧
      [nodeId, node, nodeId, node] = p.reports.map Report.name := by
  have hfirst : ((Call.use (.arrayOf (.declaration node)) .classic).run definition.registry
      .empty).result = .ok () := by decide +kernel
  have hsecond : ((Call.name (.declaration node) .dated20190221).run definition.registry
      ((Call.use (.arrayOf (.declaration node)) .classic).run definition.registry
        .empty).pass).result = .ok () := by decide +kernel
  have hreceived : definition.registry.received
      [.name (.declaration node) .dated20190221, .use (.arrayOf (.declaration node)) .classic] =
      [(nodeId, .classic), (node, .classic), (nodeId, .dated20190221),
        (node, .dated20190221)] := by decide +kernel
  have hseries : definition.registry.Series _ _ :=
    .call (.call .start (.use (.arrayOf (.declaration node)) .classic))
      (.name (.declaration node) .dated20190221)
  rw [hfirst, hsecond] at hseries
  obtain ⟨hends, hnodup, hnames⟩ := hseries.terminates_reporting_once
  simp only [List.map_cons, List.map_nil, hreceived] at hnodup hnames
  obtain ⟨hends, hmoments⟩ := hends (.name (.declaration node) .latest)
  have hsize : definition.registry.size + 1 = 4 := by decide +kernel
  exact ⟨_, hseries, hends, fun m hm => hsize ▸ (hmoments m hm).1, hnodup, hnames⟩

end NodeTree

end ApiChronicle
