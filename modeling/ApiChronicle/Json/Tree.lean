import ApiChronicle.Json.Number

/-! # ApiChronicle.Json.Tree

JSON texts **as they are written**, and how parts of them are read.

A `Tree` is the nesting of a text's tokens. It keeps what a value forgets:
repeated members, number literals that may be out of range, strings that may name
no text. These matter because a reader looks at a tree part by part, and a part
that nobody reads need not mean anything.

`value?` reads a whole tree. A reader keeps at most `maxDepth` brackets open, so
it takes the number of brackets that it may still open.
-/

namespace ApiChronicle.Json

/-- A JSON text as it is written. -/
inductive Tree
  | null
  | bool (b : Bool)
  | number (literal : NumberLiteral)
  | string (pieces : List StringPiece)
  | array (elements : List Tree)
  | object (members : List (List StringPiece × Tree))
  deriving Repr, Inhabited

namespace Tree

/-! ### From tokens to trees -/

/-- A container that is still open, with what it holds so far in reverse. -/
inductive Frame
  | array (elements : List Tree)
  | object (members : List (List StringPiece × Tree)) (key : List StringPiece)

/-- What the next token may be. -/
inductive Expected
  /-- The start of a value. -/
  | value
  /-- The start of the first element of an array, or its end. -/
  | valueOrEnd
  /-- The key of a member behind the given ones. -/
  | key (members : List (List StringPiece × Tree))
  /-- The key of the first member of an object, or its end. -/
  | keyOrEnd
  /-- The colon after a key. -/
  | colon (members : List (List StringPiece × Tree)) (key : List StringPiece)
  /-- What may follow a finished value. -/
  | done (value : Tree)

/-- The tree of a list of tokens, read with the open containers on a stack. -/
def ofTokens? : Expected → List Frame → List Token → Option Tree
  | .done value, [], [] => some value
  | _, _, [] => none
  | .done value, .array elements :: frames, token :: rest =>
    match token with
    | .comma => ofTokens? .value (.array (value :: elements) :: frames) rest
    | .closeArray => ofTokens? (.done (.array (value :: elements).reverse)) frames rest
    | _ => none
  | .done value, .object members key :: frames, token :: rest =>
    match token with
    | .comma => ofTokens? (.key ((key, value) :: members)) frames rest
    | .closeObject => ofTokens? (.done (.object ((key, value) :: members).reverse)) frames rest
    | _ => none
  | .done _, [], _ :: _ => none
  | .key members, frames, token :: rest =>
    match token with
    | .string key => ofTokens? (.colon members key) frames rest
    | _ => none
  | .keyOrEnd, frames, token :: rest =>
    match token with
    | .string key => ofTokens? (.colon [] key) frames rest
    | .closeObject => ofTokens? (.done (.object [])) frames rest
    | _ => none
  | .colon members key, frames, token :: rest =>
    match token with
    | .colon => ofTokens? .value (.object members key :: frames) rest
    | _ => none
  | .value, frames, token :: rest =>
    match token with
    | .openArray => ofTokens? .valueOrEnd frames rest
    | .openObject => ofTokens? .keyOrEnd frames rest
    | .null => ofTokens? (.done .null) frames rest
    | .bool b => ofTokens? (.done (.bool b)) frames rest
    | .number literal => ofTokens? (.done (.number literal)) frames rest
    | .string pieces => ofTokens? (.done (.string pieces)) frames rest
    | _ => none
  | .valueOrEnd, frames, token :: rest =>
    match token with
    | .closeArray => ofTokens? (.done (.array [])) frames rest
    | .openArray => ofTokens? .valueOrEnd (.array [] :: frames) rest
    | .openObject => ofTokens? .keyOrEnd (.array [] :: frames) rest
    | .null => ofTokens? (.done .null) (.array [] :: frames) rest
    | .bool b => ofTokens? (.done (.bool b)) (.array [] :: frames) rest
    | .number literal => ofTokens? (.done (.number literal)) (.array [] :: frames) rest
    | .string pieces => ofTokens? (.done (.string pieces)) (.array [] :: frames) rest
    | _ => none

def ofText? (text : String) : Option Tree := do
  ofTokens? .value [] (← Token.ofText? text)

/-! ### Reading whole trees -/

/-- The most brackets a reader keeps open at once. -/
def maxDepth : Nat := 127

mutual

/-- The value of a tree, if it can be read with `depth` more brackets open. Of
members with one key the last counts. -/
def value? (depth : Nat) : Tree → Option Json
  | null => some .null
  | bool b => some (.bool b)
  | number literal => Json.number <$> literal.value?
  | string pieces => Json.string <$> StringPiece.text? pieces
  | array elements =>
    if depth = 0 then none else Json.array <$> elementValues? (depth - 1) elements
  | object members =>
    if depth = 0 then none
    else (fun ms => Json.object (Listing.ofEntries ms)) <$> memberValues? (depth - 1) members

def elementValues? (depth : Nat) : List Tree → Option (List Json)
  | [] => some []
  | tree :: rest => do
    let value ← value? depth tree
    let values ← elementValues? depth rest
    return value :: values

def memberValues? (depth : Nat) : List (List StringPiece × Tree) → Option (List (String × Json))
  | [] => some []
  | (key, tree) :: rest => do
    let key ← StringPiece.text? key
    let value ← value? depth tree
    let values ← memberValues? depth rest
    return (key, value) :: values

end

/-- Whether a tree can be read with `depth` more brackets open. -/
def isReadable (depth : Nat) (t : Tree) : Bool := (t.value? depth).isSome

/-! ### Reading trees part by part -/

def text? : Tree → Option String
  | string pieces => StringPiece.text? pieces
  | _ => none

def bool? : Tree → Option Bool
  | bool b => some b
  | _ => none

/-- An unsigned integer of 64 bits. -/
def unsigned? : Tree → Option Nat
  | number literal => literal.unsigned?
  | _ => none

def list? {α : Type} (element : Tree → Option α) : Tree → Option (List α)
  | array elements => elements.mapM element
  | _ => none

/-- Things by name. Every value is read, and of those with one name the last is
kept. -/
def listing? {α : Type} (value : Tree → Option α) : Tree → Option (Listing α)
  | object members => do
    let entries ← members.mapM fun (key, tree) => do
      return (← StringPiece.text? key, ← value tree)
    return Listing.ofEntries entries
  | _ => none

/-- A thing or its absence, which is written `null`. -/
def nullable? {α : Type} (value : Tree → Option α) : Tree → Option (Option α)
  | null => some none
  | t => some <$> value t

/-- The fields of a record by name. -/
abbrev Fields := Listing Tree

/-- The members that are fields of a record, in their order. No field may be given
twice; other members are skipped. -/
def knownMembers? (fields : List String) :
    List (List StringPiece × Tree) → Option Fields
  | [] => some []
  | (key, tree) :: rest => do
    let key ← StringPiece.text? key
    let others ← knownMembers? fields rest
    if key ∉ fields then return others
    else if (others.lookup key).isSome then none
    else return (key, tree) :: others

def members? (fields : List String) : Tree → Option Fields
  | object members => knownMembers? fields members
  | _ => none

/-- The fields of a record, written as an object, or as an array of the fields'
values in order from which some at the end may be missing. -/
def record? (fields : List String) : Tree → Option Fields
  | array elements =>
    if elements.length ≤ fields.length then some (fields.zip elements) else none
  | t => t.members? fields

/-- One of several variants: its name and what is written with it. -/
def variant? : Tree → Option (String × Option Tree)
  | string pieces => do
    return (← StringPiece.text? pieces, none)
  | object [(key, tree)] => do
    return (← StringPiece.text? key, some tree)
  | _ => none

/-- The name of a variant that is written alone, or with `null`. -/
def plainVariant? (t : Tree) : Option String :=
  match t.variant? with
  | some (name, none) => some name
  | some (name, some null) => some name
  | _ => none

namespace Fields

def required? {α : Type} (fields : Fields) (name : String) (value : Tree → Option α) :
    Option α :=
  (fields.lookup name).bind value

/-- The field that stands for `absent` when it is not given. -/
def optional? {α : Type} (fields : Fields) (name : String) (absent : α)
    (value : Tree → Option α) : Option α :=
  match fields.lookup name with
  | none => some absent
  | some t => value t

end Fields

end Tree

end ApiChronicle.Json
