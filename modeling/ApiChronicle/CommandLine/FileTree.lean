import ApiChronicle.SortedMap

/-! # ApiChronicle.CommandLine.FileTree

**Directories and files** as a value, and what the program may do with them.

A place in the tree is the list of names on the way to it from the root, so the
root is the empty list. A path is a text that walks there in steps: from the root
if it starts with a slash, otherwise from the current directory. Every step but the
last one has to end in a directory, also a step that is taken back by the next one.

The program itself only knows `Files`, the two things it does with a path. So it
runs on a tree in the same way as on a disk.
-/

namespace ApiChronicle.CommandLine

/-- What is found at a path. -/
inductive Found
  | missing
  /-- Something that has no text, such as a directory. -/
  | unreadable
  | text (content : String)
  deriving DecidableEq, Repr

/-- How files are reached. -/
structure Files (m : Type → Type) where
  /-- Look at a path. -/
  find : String → m Found
  /-- Write a text to a path, and tell whether that succeeded. -/
  write : String → String → m Bool

/-- What stands at a place. -/
inductive FileTree.Node
  | directory
  | file (content : String)
  deriving DecidableEq, Repr

/-- Directories and files, and the directory that paths start from. -/
structure FileTree where
  /-- What stands at each place but the root, which is a directory. -/
  nodes : SortedMap (List String) FileTree.Node
  current : List String

namespace FileTree

def maxNameSize : Nat := 255

def maxPathSize : Nat := 4095

def isDirectory (t : FileTree) (place : List String) : Bool :=
  place.isEmpty || t.nodes.get? place = some .directory

/-- The directory one step away from a directory. Two dots lead to the directory
around, and from the root to the root. -/
def enter? (t : FileTree) (place : List String) (step : String) : Option (List String) :=
  if step = ".." then some place.dropLast
  else
    let inner := place ++ [step]
    if t.isDirectory inner then some inner else none

/-- Where a path leads. -/
inductive Destination
  | directory
  /-- A place in a directory that is taken by a file, or free. -/
  | file (place : List String)
  | nowhere
  deriving DecidableEq, Repr

def walk (t : FileTree) (place : List String) : List String → Destination
  | [] => .directory
  | step :: rest =>
    match t.enter? place step with
    | some inner => t.walk inner rest
    | none => if rest.isEmpty then .file (place ++ [step]) else .nowhere

/-- Where a path leads. Empty steps and single dots stay in place; a path that ends in
one can only lead to a directory. -/
def destination (t : FileTree) (path : String) : Destination :=
  let stays := fun step => step = "" || step = "."
  let steps := path.splitOn "/"
  let names := steps.filter (!stays ·)
  if path.isEmpty || path.utf8ByteSize > maxPathSize ||
      names.any (·.utf8ByteSize > maxNameSize) then .nowhere
  else
    match t.walk (if path.startsWith "/" then [] else t.current) names with
    | .file place => if steps.getLast?.any stays then .nowhere else .file place
    | other => other

def find (t : FileTree) (path : String) : Found :=
  match t.destination path with
  | .directory => .unreadable
  | .nowhere => .missing
  | .file place =>
    match t.nodes.get? place with
    | some (.file content) => .text content
    | _ => .missing

/-- The tree with a text written to a path. A file that stands there is replaced;
a directory is not. -/
def write? (t : FileTree) (path content : String) : Option FileTree :=
  match t.destination path with
  | .file place => some { t with nodes := t.nodes.insert place (.file content) }
  | .directory | .nowhere => none

/-- The files of a tree that changes from step to step. -/
def files : Files (StateM FileTree) where
  find path := return (← get).find path
  write path content := do
    match (← get).write? path content with
    | some t => set t; return true
    | none => return false

end FileTree

end ApiChronicle.CommandLine
