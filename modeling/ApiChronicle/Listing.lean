/-! # ApiChronicle.Listing

Named entries **in order of first appearance**.

Documents list their members in the order of the file. Writing a name again
changes its value and keeps its place.
-/

namespace ApiChronicle

/-- Named entries in order of first appearance. -/
abbrev Listing (α : Type) := List (String × α)

namespace Listing

variable {α : Type}

/-- The listing with `value` under `name`: in the place of the entry that had the
name, or behind all others. -/
def set (name : String) (value : α) : Listing α → Listing α
  | [] => [(name, value)]
  | (name', value') :: rest =>
    if name' = name then (name, value) :: rest else (name', value') :: set name value rest

def ofEntries (entries : List (String × α)) : Listing α :=
  entries.foldl (fun listing e => set e.1 e.2 listing) []

end Listing

end ApiChronicle
