/-! # ApiChronicle.Json.Token

The **tokens of a JSON text**.

Numbers keep their digits and strings their code units, so that what a text
*says* is separated from what it *means*. A string literal may hold an escaped
surrogate without its partner; such a literal is well-formed but names no text,
and `StringLiteral.text?` is where that shows.
-/

namespace ApiChronicle.Json

/-- A number as it is written. -/
structure NumberLiteral where
  negative : Bool
  /-- The digits before the point. -/
  whole : List Nat
  /-- The digits after the point; none if there is no point. -/
  fraction : List Nat
  /-- The sign and the digits of the exponent. -/
  exponent : Option (Bool × List Nat)
  deriving DecidableEq, Repr

/-- One piece of a string literal. -/
inductive StringPiece
  /-- A character, written as itself or by a short escape. -/
  | char (c : Char)
  /-- A code unit written by its number. -/
  | unit (code : Nat)
  deriving DecidableEq, Repr

inductive Token
  | openArray
  | closeArray
  | openObject
  | closeObject
  | comma
  | colon
  | null
  | bool (b : Bool)
  | number (literal : NumberLiteral)
  | string (pieces : List StringPiece)
  deriving DecidableEq, Repr

/-! ### Strings -/

namespace StringPiece

/-- Whether a code unit is the first half of a surrogate pair. -/
def isHigh (code : Nat) : Bool := 0xd800 ≤ code && code < 0xdc00

/-- Whether a code unit is the second half of a surrogate pair. -/
def isLow (code : Nat) : Bool := 0xdc00 ≤ code && code < 0xe000

/-- The characters the pieces name; none if half a surrogate pair stands alone. -/
def chars? : List StringPiece → Option (List Char)
  | [] => some []
  | char c :: rest => (c :: ·) <$> chars? rest
  | unit high :: unit low :: rest =>
    if isHigh high then
      if isLow low then
        (Char.ofNat (0x10000 + (high - 0xd800) * 0x400 + (low - 0xdc00)) :: ·) <$> chars? rest
      else none
    else if isLow high then none
    else (Char.ofNat high :: ·) <$> chars? (unit low :: rest)
  | unit code :: rest =>
    if isHigh code || isLow code then none else (Char.ofNat code :: ·) <$> chars? rest

def text? (pieces : List StringPiece) : Option String := String.ofList <$> chars? pieces

def hexValue? (c : Char) : Option Nat :=
  if '0' ≤ c ∧ c ≤ '9' then some (c.toNat - '0'.toNat)
  else if 'a' ≤ c ∧ c ≤ 'f' then some (c.toNat - 'a'.toNat + 10)
  else if 'A' ≤ c ∧ c ≤ 'F' then some (c.toNat - 'A'.toNat + 10)
  else none

/-- The code unit written with four hexadecimal digits. -/
def codeUnit? (a b c d : Char) : Option Nat := do
  return (((← hexValue? a) * 16 + (← hexValue? b)) * 16 + (← hexValue? c)) * 16 + (← hexValue? d)

/-- The character a short escape stands for. -/
def escaped? (c : Char) : Option Char :=
  match c with
  | '"' => some '"'
  | '\\' => some '\\'
  | '/' => some '/'
  | 'b' => some '\x08'
  | 'f' => some '\x0c'
  | 'n' => some '\n'
  | 'r' => some '\r'
  | 't' => some '\t'
  | _ => none

/-- The pieces up to the closing quote, and what follows it. -/
def scan? : List Char → Option (List StringPiece × List Char)
  | [] => none
  | '"' :: rest => some ([], rest)
  | '\\' :: 'u' :: a :: b :: c :: d :: rest => do
    let code ← codeUnit? a b c d
    let (pieces, rest) ← scan? rest
    return (unit code :: pieces, rest)
  | '\\' :: c :: rest => do
    let c ← escaped? c
    let (pieces, rest) ← scan? rest
    return (char c :: pieces, rest)
  | c :: rest =>
    if c.toNat < 32 ∨ c = '\\' then none
    else do
      let (pieces, rest) ← scan? rest
      return (char c :: pieces, rest)

end StringPiece

/-! ### Numbers -/

namespace NumberLiteral

/-- The run of digits at the start, and what follows it. -/
def digits (s : List Char) : List Nat × List Char :=
  ((s.takeWhile Char.isDigit).map fun c => c.toNat - '0'.toNat, s.dropWhile Char.isDigit)

def someDigits? (s : List Char) : Option (List Nat × List Char) :=
  let (ds, rest) := digits s
  if ds.isEmpty then none else some (ds, rest)

/-- The digits before the point. A leading zero stands alone. -/
def scanWhole? : List Char → Option (List Nat × List Char)
  | '0' :: rest => some ([0], rest)
  | s => someDigits? s

def scanFraction? : List Char → Option (List Nat × List Char)
  | '.' :: rest => someDigits? rest
  | s => some ([], s)

/-- The sign and the digits of an exponent after its mark. -/
def scanExponentDigits? : List Char → Option ((Bool × List Nat) × List Char)
  | '+' :: rest => (someDigits? rest).map fun (ds, rest) => ((false, ds), rest)
  | '-' :: rest => (someDigits? rest).map fun (ds, rest) => ((true, ds), rest)
  | s => (someDigits? s).map fun (ds, rest) => ((false, ds), rest)

def scanExponent? : List Char → Option (Option (Bool × List Nat) × List Char)
  | 'e' :: rest => (scanExponentDigits? rest).map fun (e, rest) => (some e, rest)
  | 'E' :: rest => (scanExponentDigits? rest).map fun (e, rest) => (some e, rest)
  | s => some (none, s)

/-- The parts of a number after its sign. -/
def scanMagnitude? (negative : Bool) (s : List Char) : Option (NumberLiteral × List Char) := do
  let (whole, s) ← scanWhole? s
  let (fraction, s) ← scanFraction? s
  let (exponent, s) ← scanExponent? s
  return (⟨negative, whole, fraction, exponent⟩, s)

/-- The number at the start of a text, and what follows it. -/
def scan? : List Char → Option (NumberLiteral × List Char)
  | '-' :: rest => scanMagnitude? true rest
  | s => scanMagnitude? false s

end NumberLiteral

/-! ### Texts -/

namespace Token

def isBlank (c : Char) : Bool := c = ' ' || c = '\n' || c = '\t' || c = '\r'

/-- The token at the start of a text, and what follows it. -/
def scan? : List Char → Option (Token × List Char)
  | '[' :: rest => some (openArray, rest)
  | ']' :: rest => some (closeArray, rest)
  | '\x7b' :: rest => some (openObject, rest)
  | '\x7d' :: rest => some (closeObject, rest)
  | ',' :: rest => some (comma, rest)
  | ':' :: rest => some (colon, rest)
  | 'n' :: 'u' :: 'l' :: 'l' :: rest => some (null, rest)
  | 't' :: 'r' :: 'u' :: 'e' :: rest => some (bool true, rest)
  | 'f' :: 'a' :: 'l' :: 's' :: 'e' :: rest => some (bool false, rest)
  | '"' :: rest => (StringPiece.scan? rest).map fun (pieces, rest) => (string pieces, rest)
  | s => (NumberLiteral.scan? s).map fun (literal, rest) => (number literal, rest)

/-- The tokens of a text that holds at most `count` of them. -/
def scanAll? : Nat → List Char → Option (List Token)
  | 0, s => if (s.dropWhile isBlank).isEmpty then some [] else none
  | count + 1, s =>
    match s.dropWhile isBlank with
    | [] => some []
    | s => do
      let (token, rest) ← scan? s
      let tokens ← scanAll? count rest
      return token :: tokens

/-- The tokens of a text. No token is empty, so there are at most as many as there
are characters. -/
def ofText? (text : String) : Option (List Token) := scanAll? text.length text.toList

end Token

end ApiChronicle.Json
