import ApiChronicle.Binary64
import ApiChronicle.Listing

/-! # ApiChronicle.Json

**JSON values.** Objects keep their members in the order in which they were
written or built. Numbers are either integers, which keep all their digits, or
binary64 numbers.
-/

namespace ApiChronicle

inductive JsonNumber
  | integer (n : Int)
  | float (x : Binary64)
  deriving DecidableEq, Repr, Inhabited

/-- A JSON value. -/
inductive Json
  | null
  | bool (b : Bool)
  | number (n : JsonNumber)
  | string (s : String)
  | array (elements : List Json)
  | object (members : List (String × Json))
  deriving Repr, Inhabited

namespace Json

def nat (n : Nat) : Json := .number (.integer n)

def int (n : Int) : Json := .number (.integer n)

/-- The first member with a key. -/
def member? (key : String) : Json → Option Json
  | object members => members.lookup key
  | _ => none

/-- The members whose value is present. -/
def presentMembers (members : List (String × Option Json)) : Listing Json :=
  members.filterMap fun (key, value?) => value?.map fun value => (key, value)

end Json

end ApiChronicle
