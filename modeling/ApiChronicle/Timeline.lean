import ApiChronicle.InPlace
import ApiChronicle.Window

/-! # ApiChronicle.Timeline

Values together with the **windows they are valid for**.

A `Timeline` is a non-empty run of entries ordered by start. Its windows never
overlap, so at most one entry answers for a version, and only the last entry may
be open-ended. There may be gaps: versions for which the timeline has no value.

Timelines are put together in a `Draft`. Adding an entry to a draft closes the
open entry that started earlier, which is how a schema that holds "from here on"
is replaced by its successor; any other collision is refused. An addition works
on the draft in place, and looks for collisions before it changes anything.
-/

namespace ApiChronicle

/-- A value and the window it is valid for. -/
structure Entry (α : Type) where
  value : α
  since : Version
  stop : Option Version
  deriving DecidableEq, Repr

namespace Entry

variable {α β : Type}

def window (e : Entry α) : Window := ⟨e.since, e.stop⟩

def withValue (e : Entry α) (value : β) : Entry β := ⟨value, e.since, e.stop⟩

end Entry

/-- A non-empty run of entries, earliest first. -/
structure Timeline (α : Type) where
  /-- The earliest entry. -/
  first : Entry α
  /-- The entries after it. -/
  rest : List (Entry α)
  deriving DecidableEq, Repr

namespace Timeline

variable {α β ε : Type}

def entries (t : Timeline α) : List (Entry α) := t.first :: t.rest

def last (t : Timeline α) : Entry α := t.rest.getLastD t.first

def ofEntries? : List (Entry α) → Option (Timeline α)
  | [] => none
  | e :: rest => some ⟨e, rest⟩

/-- One value for the versions of one window. -/
def single (value : α) (window : Window) : Timeline α := ⟨⟨value, window.since, window.stop⟩, []⟩

def constant (value : α) : Timeline α := single value .unbounded

/-! ### Looking values up -/

/-- The entry valid at a version. -/
def entryAt? (t : Timeline α) (v : Version) : Option (Entry α) :=
  t.entries.find? (·.window.contains v)

def at? (t : Timeline α) (v : Version) : Option α := (t.entryAt? v).map (·.value)

/-- Whether one value spans every version. -/
def isConstant (t : Timeline α) : Bool := t.rest.isEmpty && t.first.window.isUnbounded

/-- From the first start to the last stop. -/
def span (t : Timeline α) : Window := ⟨t.first.since, t.last.stop⟩

/-- The versions with a value, oldest first. -/
def versions (t : Timeline α) : List Version := Version.all.filter fun v => (t.entryAt? v).isSome

/-- The versions with a value at which some entry starts or stops. The stop of a
closed last entry and the start of a gap have no value and are left out. -/
def significantVersions (t : Timeline α) : List Version :=
  t.versions.filter fun v => t.entries.any fun e => e.since = v || e.stop = some v

/-! ### Moving the outer bounds -/

/-- The entries with the stop of the last one replaced. -/
def setLastStop (stop : Option Version) : List (Entry α) → List (Entry α)
  | [] => []
  | [e] => [{ e with stop := stop }]
  | e :: e' :: rest => e :: setLastStop stop (e' :: rest)

/-- Move the outer bounds to `[since, stop)`. Only the start of the first entry
and the stop of the last one change; bounds that would turn either of them
around are refused. -/
def readjust (t : Timeline α) (since : Version) (stop : Option Version) :
    Except TimelineError (Timeline α) :=
  if t.first.since = since ∧ t.last.stop = stop then .ok t
  else match t.rest with
    | [] => do
      let window ← Window.ofBounds since stop
      return single t.first.value window
    | e :: rest => do
      let _ ← Window.ofBounds since t.first.stop
      let _ ← Window.ofBounds t.last.since stop
      return ⟨{ t.first with since := since }, setLastStop stop (e :: rest)⟩

/-- Keep the entries that overlap a window and move the outer bounds to it. -/
def restrict (t : Timeline α) (window : Window) : Except TimelineError (Timeline α) :=
  match ofEntries? (t.entries.filter (·.window.overlaps window)) with
  | none => .error .empty
  | some kept => kept.readjust window.since window.stop

/-! ### Transforming values -/

/-- Transform every value together with its window. -/
def mapEntries (f : α → Window → β) (t : Timeline α) : Timeline β :=
  ⟨t.first.withValue (f t.first.value t.first.window),
    t.rest.map fun e => e.withValue (f e.value e.window)⟩

def map (f : α → β) (t : Timeline α) : Timeline β := t.mapEntries fun value _ => f value

/-- Transform every value together with its window, up to the first failure. -/
def mapEntriesM (f : α → Window → Except ε β) (t : Timeline α) : Except ε (Timeline β) := do
  let first ← f t.first.value t.first.window
  let rest ← t.rest.mapM fun e => do
    let value ← f e.value e.window
    return e.withValue value
  return ⟨t.first.withValue first, rest⟩

/-- The one value every entry maps to. The fault names the first entry and the
earliest one that differs from it. -/
def flatten [DecidableEq β] (f : α → β) (t : Timeline α) : Except TimelineError β :=
  match t.rest.find? fun e => f e.value ≠ f t.first.value with
  | none => .ok (f t.first.value)
  | some e => .error (.inconsistent t.first.window e.window)

/-! ### Drafts -/

/-- A timeline under construction. -/
structure Draft (α : Type) where
  /-- The entries so far, earliest first. -/
  entries : List (Entry α)
  deriving DecidableEq, Repr

namespace Draft

def empty : Draft α := ⟨[]⟩

/-- The entries once the first open one, if it started before `since`, stops there. -/
def closeOpen (since : Version) : List (Entry α) → List (Entry α)
  | [] => []
  | e :: rest =>
    if e.stop.isNone then
      (if e.since < since then { e with stop := some since } else e) :: rest
    else e :: closeOpen since rest

/-- Check that the bounds of every entry make a window and that none of them overlaps
the given one. -/
def checkFree (window : Window) : List (Entry α) → Except TimelineError Unit
  | [] => .ok ()
  | e :: rest => do
    let existing ← Window.ofBounds e.since e.stop
    if existing.overlaps window then .error (.overlapping window existing)
    else checkFree window rest

/-- Put an entry behind those that start before it. -/
def insertBySince (new : Entry α) (entries : List (Entry α)) : List (Entry α) :=
  entries.takeWhile (·.since < new.since) ++ new :: entries.dropWhile (·.since < new.since)

/-- Add a value for `[since, stop)`. The open entry, if it started before `since`,
stops there and the new entry takes over; nothing else may be in the way. -/
def add (value : α) (since : Version) (stop : Option Version) :
    EStateM TimelineError (Draft α) Unit := do
  let window ← ofExcept (Window.ofBounds since stop)
  let d ← get
  ofExcept (checkFree window (closeOpen since d.entries))
  modify fun d => ⟨closeOpen since d.entries⟩
  modify fun d => ⟨insertBySince ⟨value, since, stop⟩ d.entries⟩

def build (d : Draft α) : Except TimelineError (Timeline α) :=
  match ofEntries? d.entries with
  | some t => .ok t
  | none => .error .empty

end Draft

end Timeline

end ApiChronicle
