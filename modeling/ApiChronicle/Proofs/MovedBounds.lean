import ApiChronicle.Proofs.Restriction

/-! # ApiChronicle.Proofs.MovedBounds

**Where the outer bounds of a timeline have been leaves no trace.**

`readjust` stops early if the bounds are where they should be, and it treats a single entry
apart, whose start and stop are moved together. Neither shows in the answer: for entries that lie
one after the other it is `moveBounds`, which checks the first entry and the last one and then
moves both, whatever the bounds were (`readjust_eq_moveBounds`).

What `moveBounds` reads of a timeline is the stop of the first entry and the start of the last
one, and of a single entry nothing at all. Those it does not move (`firstStop_between`,
`lastSince_between`), and what it writes replaces what was written there before
(`between_between`). So the last of several moves decides, failures included.
-/

namespace ApiChronicle.Timeline

open Window (Successive)

variable {α : Type} {t t' : Timeline α} {since since' : Version} {stop stop' : Option Version}

/-! ### Setting the stop of the last entry -/

theorem setLastStop_concat (stop : Option Version) (entries : List (Entry α)) (e : Entry α) :
    setLastStop stop (entries ++ [e]) = entries ++ [{ e with stop := stop }] := by
  induction entries with
  | nil => rfl
  | cons e' rest ih =>
      cases rest with
      | nil => rfl
      | cons e'' rest =>
          show e' :: setLastStop stop (e'' :: rest ++ [e]) = _
          rw [ih]
          rfl

@[simp] theorem isEmpty_setLastStop (stop : Option Version) (entries : List (Entry α)) :
    (setLastStop stop entries).isEmpty = entries.isEmpty := by
  rcases List.eq_nil_or_concat' entries with rfl | ⟨front, e, rfl⟩
  · rfl
  · rw [setLastStop_concat]
    cases front <;> rfl

/-- The second of two stops wins. -/
@[simp] theorem setLastStop_setLastStop (entries : List (Entry α)) :
    setLastStop stop' (setLastStop stop entries) = setLastStop stop' entries := by
  rcases List.eq_nil_or_concat' entries with rfl | ⟨front, e, rfl⟩
  · rfl
  · simp [setLastStop_concat]

theorem dropLast_stops_setLastStop (stop : Option Version) (entries : List (Entry α)) :
    ((setLastStop stop entries).map Entry.stop).dropLast = (entries.map Entry.stop).dropLast := by
  rcases List.eq_nil_or_concat' entries with rfl | ⟨front, e, rfl⟩
  · rfl
  · simp [setLastStop_concat]

/-! ### Both bounds at once -/

/-- Where the first entry stops once the last one stops at `stop`; a single entry is both. -/
def firstStop (t : Timeline α) (stop : Option Version) : Option Version :=
  if t.rest.isEmpty then stop else t.first.stop

/-- Where the last entry starts once the first one starts at `since`. -/
def lastSince (t : Timeline α) (since : Version) : Version :=
  if t.rest.isEmpty then since else t.last.since

/-- The timeline with its outer bounds at `[since, stop)`, right way round or not. -/
def between (t : Timeline α) (since : Version) (stop : Option Version) : Timeline α :=
  ⟨{ t.first with since := since, stop := t.firstStop stop }, setLastStop stop t.rest⟩

/-- Move the outer bounds, wherever they are: check the first entry, check the last one, and
move both. -/
def moveBounds (t : Timeline α) (since : Version) (stop : Option Version) :
    Except TimelineError (Timeline α) := do
  let _ ← Window.ofBounds since (t.firstStop stop)
  let _ ← Window.ofBounds (t.lastSince since) stop
  return t.between since stop

theorem last_between (t : Timeline α) (since : Version) (stop : Option Version) :
    (t.between since stop).last =
      { t.last with since := t.lastSince since, stop := stop } := by
  obtain ⟨first, rest⟩ := t
  rcases List.eq_nil_or_concat' rest with rfl | ⟨front, e, rfl⟩
  · rfl
  · simp [between, last, lastSince, setLastStop_concat]

theorem firstStop_between (t : Timeline α) (since : Version) (stop stop' : Option Version) :
    (t.between since stop).firstStop stop' = t.firstStop stop' := by
  by_cases hsingle : t.rest.isEmpty = true <;> simp [firstStop, between, hsingle]

theorem lastSince_between (t : Timeline α) (since since' : Version) (stop : Option Version) :
    (t.between since stop).lastSince since' = t.lastSince since' := by
  have hlast : (t.between since stop).last.since = t.lastSince since := by rw [last_between]
  by_cases hsingle : t.rest.isEmpty = true <;>
    simp_all [lastSince, between]

/-- The second of two moves wins. -/
theorem between_between (t : Timeline α) (since since' : Version) (stop stop' : Option Version) :
    (t.between since stop).between since' stop' = t.between since' stop' := by
  have hfirst := firstStop_between t since stop stop'
  simp only [between, setLastStop_setLastStop] at hfirst ⊢
  rw [hfirst]

theorem moveBounds_between (t : Timeline α) (since since' : Version)
    (stop stop' : Option Version) :
    (t.between since stop).moveBounds since' stop' = t.moveBounds since' stop' := by
  simp only [moveBounds, firstStop_between, lastSince_between, between_between]

theorem moveBounds_eq_ok_iff :
    t.moveBounds since stop = .ok t' ↔
      (⟨since, t.firstStop stop⟩ : Window).Valid ∧ (⟨t.lastSince since, stop⟩ : Window).Valid ∧
        t.between since stop = t' := by
  simp only [moveBounds, Except.bind_eq_ok_iff, Except.pure_eq_ok_iff]
  constructor
  · intro h
    obtain ⟨head, hhead, tail, htail, h⟩ := h
    obtain rfl := Window.ofBounds_eq_ok hhead
    obtain rfl := Window.ofBounds_eq_ok htail
    exact ⟨Window.valid_of_ofBounds hhead, Window.valid_of_ofBounds htail, h⟩
  · intro h
    obtain ⟨hhead, htail, h⟩ := h
    exact ⟨_, Window.ofBounds_of_valid hhead, _, Window.ofBounds_of_valid htail, h⟩

/-! ### Moving the outer bounds -/

/-- Bounds that are where they should be stay there when they are moved. -/
theorem moveBounds_span (h : Successive t.windows) :
    t.moveBounds t.first.since t.last.stop = .ok t := by
  obtain ⟨first, rest⟩ := t
  have hvalid : ∀ e ∈ (⟨first, rest⟩ : Timeline α).entries, e.window.Valid :=
    fun e he => h.valid _ (List.mem_map_of_mem he)
  have hfirst := hvalid first List.mem_cons_self
  have hlast := hvalid _ (last_mem_entries _)
  rw [moveBounds_eq_ok_iff]
  cases rest with
  | nil => exact ⟨hfirst, hfirst, rfl⟩
  | cons e rest =>
      refine ⟨hfirst, hlast, ?_⟩
      have hend : (⟨first, e :: rest⟩ : Timeline α).last = rest.getLastD e := List.getLastD_cons ..
      rw [hend]
      exact congrArg (Timeline.mk first) (setLastStop_getLast rfl)

theorem readjust_eq_moveBounds (h : Successive t.windows) (since : Version)
    (stop : Option Version) : t.readjust since stop = t.moveBounds since stop := by
  unfold readjust
  split
  · next hsame =>
    obtain ⟨rfl, rfl⟩ := hsame
    exact (moveBounds_span h).symm
  obtain ⟨first, rest⟩ := t
  cases rest with
  | nil =>
      -- the same bounds are checked a second time
      show (Window.ofBounds since stop >>= fun window => pure (single first.value window)) = _
      cases hbounds : Window.ofBounds since stop with
      | error fault => simp [moveBounds, firstStop, hbounds, bind, Except.bind]
      | ok window =>
          obtain rfl := Window.ofBounds_eq_ok hbounds
          simp [moveBounds, firstStop, lastSince, between, single, setLastStop, hbounds, bind,
            Except.bind]
  | cons e rest => rfl

/-- **The last move of the outer bounds decides.** The outer bounds of a timeline can be moved to
`[since, stop)` exactly if `since` comes before the first stop and the last start before `stop`;
a single entry starts and stops with the bounds, and a missing stop comes after every version.
Then the bounds are the new ones, and the values, their number and the boundaries between two
entries are what they were. Whether the bounds had to be moved at all makes no difference. Bounds
that are moved again end up as if the first move had not been, or are refused for the same
reason; so moving them to one place twice is moving them once. -/
theorem last_readjust_decides (made : t.Made) (since : Version) (stop : Option Version) :
    ((∃ t', t.readjust since stop = .ok t') ↔
      if t.entries.length = 1 then ∀ u ∈ stop, since < u
      else (∀ u ∈ t.first.stop, since < u) ∧ ∀ u ∈ stop, t.last.since < u) ∧
    t.readjust since stop = t.moveBounds since stop ∧
    ∀ t', t.readjust since stop = .ok t' →
      t'.first.since = since ∧ t'.last.stop = stop ∧
      t'.entries.length = t.entries.length ∧
      t'.entries.map Entry.value = t.entries.map Entry.value ∧
      (t'.entries.map Entry.since).tail = (t.entries.map Entry.since).tail ∧
      (t'.entries.map Entry.stop).dropLast = (t.entries.map Entry.stop).dropLast ∧
      (∀ since' stop', t'.readjust since' stop' = t.readjust since' stop') ∧
      t'.readjust since stop = .ok t' := by
  have h := made.successive
  have hmove : ∀ since stop, t.readjust since stop = t.moveBounds since stop :=
    readjust_eq_moveBounds h
  refine ⟨?_, hmove since stop, fun t' hok => ?_⟩
  · simp only [hmove, moveBounds_eq_ok_iff, exists_and_left, exists_eq', and_true]
    obtain ⟨first, rest⟩ := t
    cases rest <;> simp [firstStop, lastSince, entries, Window.Valid]
  have hagain : ∀ since' stop', t'.readjust since' stop' = t.readjust since' stop' := by
    intro since' stop'
    have hmoved := hmove since stop ▸ hok
    obtain ⟨-, -, rfl⟩ := moveBounds_eq_ok_iff.mp hmoved
    rw [readjust_eq_moveBounds (successive_readjust h hok), moveBounds_between, hmove]
  let bounds : Window := ⟨since, stop⟩
  have hbounds : t.readjust bounds.since bounds.stop = .ok t' := hok
  have hspan : t'.span = bounds := span_readjust h hbounds
  have hvalues := values_readjust h hbounds
  have hentries := entries_of_readjust hok
  refine ⟨congrArg Window.since hspan, congrArg Window.stop hspan, ?_, hvalues, ?_, ?_, hagain,
    (hagain since stop).trans hok⟩
  · simpa using congrArg List.length hvalues
  · rw [hentries, sinces_setLastStop]
    rfl
  · rw [hentries, dropLast_stops_setLastStop]
    rfl

/-- The episodes are stretched to all versions and moved back from there. An end where the third
one starts is refused, after the move as before it. -/
theorem last_readjust_decides_episodes :
    ∃ wide : Timeline Nat, episodes.readjust .classic none = .ok wide ∧
      wide.first.since = .classic ∧ wide.entries.map Entry.value = [1, 2, 3] ∧
      wide.readjust .dated20190221 (some .dated20210715) = .ok episodes ∧
      wide.readjust .classic (some .dated20210406) =
        .error (.malformed .dated20210406 .dated20210406) := by
  have hbuild : (Draft.ofAdditions episodes.entries).build = .ok episodes := rfl
  obtain ⟨hmoves, -, hmoved⟩ := last_readjust_decides (.build hbuild) .classic none
  obtain ⟨wide, hwide⟩ := hmoves.mpr (by decide)
  obtain ⟨hsince, -, -, hvalues, -, -, hagain, -⟩ := hmoved wide hwide
  exact ⟨wide, hwide, hsince, hvalues, hagain _ _, hagain _ _⟩

end ApiChronicle.Timeline
