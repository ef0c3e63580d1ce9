/-! # ApiChronicle.Version

The **schema versions** of the remote API, oldest first.

A request names the shapes it wants to receive by a UTC timestamp. A request
without one receives the *classic* shapes, which come before every dated
version. The versions are a fixed, linearly ordered list; everything the library
says about change over time is said in terms of this order, so it is exposed
through `rank`, a natural number on which arithmetic decides every question.
-/

namespace ApiChronicle

/-- A schema version of the remote API. -/
inductive Version
  /-- The shapes served when a request names no version. -/
  | classic
  | dated20190221
  | dated20190322
  | dated20190516
  | dated20190521
  | dated20190522
  | dated20191219
  | dated20201117
  | dated20210406
  | dated20210715
  | dated20220309
  | dated20220323
  deriving DecidableEq, Repr, Inhabited

namespace Version

/-- Every schema version, oldest first. -/
def all : List Version :=
  [classic, dated20190221, dated20190322, dated20190516, dated20190521, dated20190522,
   dated20191219, dated20201117, dated20210406, dated20210715, dated20220309, dated20220323]

def latest : Version := dated20220323

/-- The place of a version in `all`. -/
def rank : Version → Nat
  | classic => 0
  | dated20190221 => 1
  | dated20190322 => 2
  | dated20190516 => 3
  | dated20190521 => 4
  | dated20190522 => 5
  | dated20191219 => 6
  | dated20201117 => 7
  | dated20210406 => 8
  | dated20210715 => 9
  | dated20220309 => 10
  | dated20220323 => 11

/-! ### Chronological order -/

instance : LT Version := ⟨fun a b => a.rank < b.rank⟩

instance : LE Version := ⟨fun a b => a.rank ≤ b.rank⟩

instance (a b : Version) : Decidable (a < b) := inferInstanceAs (Decidable (a.rank < b.rank))

instance (a b : Version) : Decidable (a ≤ b) := inferInstanceAs (Decidable (a.rank ≤ b.rank))

theorem lt_iff_rank {a b : Version} : a < b ↔ a.rank < b.rank := Iff.rfl

theorem le_iff_rank {a b : Version} : a ≤ b ↔ a.rank ≤ b.rank := Iff.rfl

/-- Versions of equal rank are equal, so the order is linear. -/
theorem rank_inj {a b : Version} : a.rank = b.rank ↔ a = b := by
  constructor
  · cases a <;> cases b <;> simp [rank]
  · exact fun h => h ▸ rfl

/-- No version is missing from the list. -/
theorem mem_all (v : Version) : v ∈ all := by
  cases v <;> decide

/-- The list runs forward in time. -/
theorem all_sorted : all.Pairwise (· < ·) := by
  decide

/-- The version after this one, if there is one. -/
def next? (v : Version) : Option Version := all[v.rank + 1]?

/-- The later of two versions. -/
def later (a b : Version) : Version := if a ≤ b then b else a

def earlier (a b : Version) : Version := if a ≤ b then a else b

/-! ### Written form -/

/-- The timestamp a request sends to ask for a version. The classic shapes are
asked for by sending none. -/
def identifier? : Version → Option String
  | classic => none
  | dated20190221 => some "2019-02-21T00:00:00Z"
  | dated20190322 => some "2019-03-22T00:00:00Z"
  | dated20190516 => some "2019-05-16T00:00:00Z"
  | dated20190521 => some "2019-05-21T23:00:00.000Z"
  | dated20190522 => some "2019-05-22T00:00:00.000Z"
  | dated20191219 => some "2019-12-19T00:00:00.000Z"
  | dated20201117 => some "2020-11-17T00:30:00.000Z"
  | dated20210406 => some "2021-04-06T21:00:00.000Z"
  | dated20210715 => some "2021-07-15T13:00:00.000Z"
  | dated20220309 => some "2022-03-09T02:00:00.000Z"
  | dated20220323 => some "2022-03-23T19:00:00.000Z"

/-- How a version is written in documents and messages. -/
def text (v : Version) : String := v.identifier?.getD "classic"

/-- The version a text names: `classic` in any mix of ASCII capitals, or the
exact timestamp of a dated version. -/
def named? (text : String) : Option Version :=
  if text.toLower = "classic" then some classic
  else all.find? fun v => v.identifier? = some text

end Version

end ApiChronicle
