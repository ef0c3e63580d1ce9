import ApiChronicle.Json
import ApiChronicle.Binary64.Shortest

/-! # ApiChronicle.Json.Text

The **written form of JSON values**, on one line or indented by two spaces.

Only quotes, backslashes and control characters are escaped; every other
character stands for itself. Empty arrays and objects are written without a line
break in either form.
-/

namespace ApiChronicle

def JsonNumber.text : JsonNumber → String
  | integer n => toString n
  | float x => x.text

namespace Json

def hexDigit (n : Nat) : Char := Nat.digitChar n

/-- How a character is written inside a string. -/
def escape (c : Char) : List Char :=
  match c with
  | '"' => ['\\', '"']
  | '\\' => ['\\', '\\']
  | '\n' => ['\\', 'n']
  | '\r' => ['\\', 'r']
  | '\t' => ['\\', 't']
  | c =>
    if c.toNat = 8 then ['\\', 'b']
    else if c.toNat = 12 then ['\\', 'f']
    else if c.toNat < 32 then
      ['\\', 'u', '0', '0', hexDigit (c.toNat / 16), hexDigit (c.toNat % 16)]
    else [c]

/-- A string in quotes. -/
def quoted (s : String) : String :=
  "\"" ++ String.ofList (s.toList.flatMap escape) ++ "\""

mutual

/-- The text of a value on one line. -/
def compact : Json → String
  | null => "null"
  | bool b => if b then "true" else "false"
  | number n => n.text
  | string s => quoted s
  | array elements => "[" ++ ",".intercalate (compactElements elements) ++ "]"
  | object members => "\x7b" ++ ",".intercalate (compactMembers members) ++ "\x7d"

def compactElements : List Json → List String
  | [] => []
  | value :: rest => compact value :: compactElements rest

def compactMembers : List (String × Json) → List String
  | [] => []
  | (key, value) :: rest => (quoted key ++ ":" ++ compact value) :: compactMembers rest

end

/-- The start of a line at a depth of nesting. -/
def newline (depth : Nat) : String := "\n" ++ String.ofList (List.replicate (2 * depth) ' ')

/-- The parts of a container, one per line, between its brackets. -/
def block (opening closing : String) (depth : Nat) (parts : List String) : String :=
  if parts.isEmpty then opening ++ closing
  else opening ++ newline (depth + 1) ++ ("," ++ newline (depth + 1)).intercalate parts ++
    newline depth ++ closing

mutual

/-- The text of a value that starts at a depth of nesting, over several lines. -/
def indented (depth : Nat) : Json → String
  | null => "null"
  | bool b => if b then "true" else "false"
  | number n => n.text
  | string s => quoted s
  | array elements => block "[" "]" depth (indentedElements (depth + 1) elements)
  | object members => block "\x7b" "\x7d" depth (indentedMembers (depth + 1) members)

def indentedElements (depth : Nat) : List Json → List String
  | [] => []
  | value :: rest => indented depth value :: indentedElements depth rest

def indentedMembers (depth : Nat) : List (String × Json) → List String
  | [] => []
  | (key, value) :: rest =>
    (quoted key ++ ": " ++ indented depth value) :: indentedMembers depth rest

end

/-- The text of a value over several lines. -/
def pretty (value : Json) : String := indented 0 value

end Json

end ApiChronicle
