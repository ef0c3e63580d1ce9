import ApiChronicle.Version

/-! # ApiChronicle.Window

Half-open **windows** `[since, stop)` of schema versions, and what can go wrong
with them.

A window without a stop is open-ended. `Window.ofBounds` is the only maker that
accepts bounds from outside, and it refuses a window that holds no version;
`Window.Valid` states what it checks.
-/

namespace ApiChronicle

/-- A range of versions: from `since` on, and before `stop` if there is one. -/
structure Window where
  /-- The first version inside. -/
  since : Version
  /-- The first version after the window; an open-ended window has none. -/
  stop : Option Version
  deriving DecidableEq, Repr, Inhabited

/-- Faults in windows and in the timelines made of them. -/
inductive TimelineError
  /-- A window must start before it stops. -/
  | malformed (since stop : Version)
  /-- Two entries would be valid at one version. -/
  | overlapping (window existing : Window)
  /-- Two schemas were declared to start at the same version. -/
  | duplicateSince (since : Version)
  /-- Nothing is left to be valid at any version. -/
  | empty
  /-- Two entries give different answers where one was asked for. -/
  | inconsistent (first second : Window)
  /-- A text that names no schema version. -/
  | unknownVersion (text : String)
  deriving DecidableEq, Repr

namespace Version

/-- The version a text names, or the complaint that it names none. -/
def ofText (text : String) : Except TimelineError Version :=
  match named? text with
  | some v => .ok v
  | none => .error (.unknownVersion text)

end Version

namespace Window

/-- A window stops, if at all, after it starts. -/
def Valid (w : Window) : Prop := ∀ stop ∈ w.stop, w.since < stop

instance (w : Window) : Decidable w.Valid :=
  match h : w.stop with
  | none => isTrue (by simp [Valid, h])
  | some stop => decidable_of_iff (w.since < stop) (by simp [Valid, h])

def ofBounds (since : Version) (stop : Option Version) : Except TimelineError Window :=
  match stop with
  | some stop' => if since < stop' then .ok ⟨since, stop⟩ else .error (.malformed since stop')
  | none => .ok ⟨since, none⟩

def unbounded : Window := ⟨.classic, none⟩

/-- Whether the window is the one that holds every version. -/
def isUnbounded (w : Window) : Bool := w.since = .classic && w.stop.isNone

def contains (w : Window) (v : Version) : Bool :=
  w.since ≤ v && w.stop.all (v < ·)

/-- Whether each window starts before the other stops. For valid windows this
says that some version lies in both. -/
def overlaps (w u : Window) : Bool :=
  u.stop.all (w.since < ·) && w.stop.all (u.since < ·)

/-- The earlier of two stops, where no stop comes after every version. -/
def earlierStop : Option Version → Option Version → Option Version
  | some a, some b => some (a.earlier b)
  | some a, none => some a
  | none, b => b

/-- The versions two windows share, as a window, if they share any. -/
def inter? (w u : Window) : Option Window :=
  (ofBounds (w.since.later u.since) (earlierStop w.stop u.stop)).toOption

/-- The versions inside, oldest first. -/
def versions (w : Window) : List Version := Version.all.filter w.contains

/-- Windows in order of their start, then of their stop, where having none comes
first. -/
def order (w u : Window) : Ordering :=
  (compare w.since.rank u.since.rank).then
    (compare (w.stop.map Version.rank) (u.stop.map Version.rank))

/-- `[since, stop)`, with `..` for a missing stop. -/
def text (w : Window) : String :=
  match w.stop with
  | some stop => s!"[{w.since.text}, {stop.text})"
  | none => s!"[{w.since.text}, ..)"

end Window

def TimelineError.message : TimelineError → String
  | malformed since stop =>
    s!"malformed version range: since {since.text} must precede until {stop.text}"
  | overlapping window existing =>
    s!"version range {window.text} overlaps existing entry {existing.text}"
  | duplicateSince since => s!"more than one schema declared since {since.text}"
  | empty => "version-constrained container has no entries"
  | inconsistent first second => s!"value differs between {first.text} and {second.text}"
  | unknownVersion text => s!"unknown schema version \"{text}\""

end ApiChronicle
