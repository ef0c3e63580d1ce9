import ApiChronicle.SortedMap
import ApiChronicle.Text.Alphanumeric
import ApiChronicle.Text.LetterCase

/-! # ApiChronicle.Name

**Names**, kept as lists of lowercase words.

The same thing is called `ItemStat`, `itemStat`, `item_stat` or `item-stat`
depending on where it is written. `Name.derive` reads any of these spellings and
the projections write them, so names compare by their words alone.

A `QualifiedName` says where a type is declared: aliases live in one flat
namespace, other declarations may be nested in the declarations around them.
-/

namespace ApiChronicle

open Std

/-- A name as its words, in small letters. -/
structure Name where
  words : List String
  deriving DecidableEq, Repr, Inhabited

namespace Name

/-! ### Splitting a spelling into words -/

/-- The words made of the letters collected so far. -/
def flush (word : List Char) : List String :=
  if word.isEmpty then [] else [String.ofList word]

/-- Whether the capital `c` opens a word after the character `prev`: it does after
a small letter or a number, and it ends a run of capitals when a small letter
follows, so `HTTPServer` has the words `http` and `server`. -/
def opensWord (prev c : Char) (next? : Option Char) : Bool :=
  isUppercase c &&
    (isLowercase prev || isNumber prev || (isUppercase prev && next?.any isLowercase))

/-- The words of a spelling, where `word` holds the letters of the unfinished word
and `prev` the character before the rest. -/
def split (prev : Char) (word : List Char) : List Char → List String
  | [] => flush word
  | c :: rest =>
    if !isAlphanumeric c then flush word ++ split c [] rest
    else if !word.isEmpty && opensWord prev c rest.head? then
      flush word ++ split c (toLowercase c) rest
    else split c (word ++ toLowercase c) rest

/-- The name a spelling stands for. Characters that are neither letters nor
numbers separate words. -/
def derive (spelling : String) : Name := ⟨split ' ' [] spelling.toList⟩

/-! ### Spellings -/

def capitalize (word : String) : String :=
  match word.toList with
  | [] => ""
  | c :: rest => String.ofList (toUppercase c ++ rest)

/-- `ItemStat` -/
def titleCase (n : Name) : String := String.join (n.words.map capitalize)

/-- `itemStat` -/
def camelCase (n : Name) : String :=
  match n.words with
  | [] => ""
  | first :: rest => first ++ String.join (rest.map capitalize)

/-- `item_stat` -/
def snakeCase (n : Name) : String := "_".intercalate n.words

/-- `ITEM_STAT` -/
def screamingSnakeCase (n : Name) : String :=
  String.ofList (n.snakeCase.toList.flatMap toUppercase)

def text (n : Name) : String := n.titleCase

/-! ### Order -/

/-- Names are ordered by their words. -/
instance : Ord Name := ⟨compareOn words⟩

instance : TransOrd Name := inferInstanceAs (TransCmp (compareOn words))

instance : LawfulEqOrd Name where
  eq_of_compare {a b} h := by
    have hwords : a.words = b.words := LawfulEqCmp.eq_of_compare h
    cases a; cases b; exact congrArg mk hwords

end Name

/-- Where a type is declared. -/
inductive QualifiedName
  /-- An alias; aliases share one flat namespace. -/
  | alias (name : Name)
  /-- A declaration inside the declarations `nest`, outermost first. -/
  | declaration (nest : List Name) (name : Name)
  deriving DecidableEq, Repr, Inhabited

namespace QualifiedName

/-- The name without its surroundings. -/
def name : QualifiedName → Name
  | .alias name => name
  | .declaration _ name => name

/-- The declarations around it, outermost first. -/
def nest : QualifiedName → List Name
  | .alias _ => []
  | .declaration nest _ => nest

def isAlias : QualifiedName → Bool
  | .alias _ => true
  | .declaration _ _ => false

/-- A dotted path of title-case names. -/
def text (q : QualifiedName) : String :=
  String.join (q.nest.map fun parent => parent.text ++ ".") ++ q.name.text

/-- The name of the other kind that is written alike: an alias and a top-level
declaration of one name. -/
def twin? : QualifiedName → Option QualifiedName
  | .alias name => some (.declaration [] name)
  | .declaration [] name => some (.alias name)
  | .declaration (_ :: _) _ => none

/-- The name at the end of a path of spellings. -/
def ofPath (path : List String) : QualifiedName :=
  let names := path.map Name.derive
  declaration names.dropLast (names.getLastD (Name.derive ""))

/-! ### Order -/

/-- Aliases come before declarations, declarations are ordered by their
surroundings and then by name. -/
instance : Ord QualifiedName :=
  ⟨compareLex (compareOn fun q => !q.isAlias) (compareLex (compareOn nest) (compareOn name))⟩

instance : TransOrd QualifiedName :=
  inferInstanceAs (TransCmp (compareLex (compareOn fun q => !q.isAlias)
    (compareLex (compareOn nest) (compareOn name))))

instance : LawfulEqOrd QualifiedName where
  eq_of_compare {a b} h := by
    have h' := compareLex_eq_eq.1 h
    have h'' := compareLex_eq_eq.1 h'.2
    have hkind : (!a.isAlias) = (!b.isAlias) := LawfulEqCmp.eq_of_compare h'.1
    have hnest : a.nest = b.nest := LawfulEqCmp.eq_of_compare h''.1
    have hname : a.name = b.name := LawfulEqCmp.eq_of_compare h''.2
    cases a <;> cases b <;> simp_all [isAlias, nest, name]

end QualifiedName

end ApiChronicle
