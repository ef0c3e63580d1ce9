/-! # ApiChronicle.Vocabulary

The **fixed vocabulary** of API descriptions: primitive types, token scopes, how
a property may be left out, languages, and the kinds of index queries.
-/

namespace ApiChronicle

/-- A type with no structure of its own. -/
inductive Primitive
  | boolean
  | integer
  | decimal
  | string
  /-- An integer that identifies an element. -/
  | integerId
  /-- A string that identifies an element. -/
  | stringId
  /-- An integer whose bits are flags. -/
  | bitfield
  deriving DecidableEq, Repr, Inhabited

namespace Primitive

def all : List Primitive := [boolean, integer, decimal, string, integerId, stringId, bitfield]

/-- How a catalogue refers to a primitive. -/
def keyword : Primitive → String
  | boolean => "boolean"
  | integer => "integer"
  | decimal => "decimal"
  | string => "string"
  | integerId => "integer_id"
  | stringId => "string_id"
  | bitfield => "bitfield"

/-- The primitive a keyword refers to. -/
def named? (keyword : String) : Option Primitive := all.find? (·.keyword = keyword)

/-- Whether values of the type can identify an element. -/
def isIdentifier : Primitive → Bool
  | integer | string | integerId | stringId => true
  | boolean | decimal | bitfield => false

end Primitive

/-- A permission that an access token may carry. -/
inductive TokenScope
  | account
  | builds
  | characters
  | guilds
  | inventories
  | progression
  | pvp
  | tradingpost
  | unlocks
  | wallet
  deriving DecidableEq, Repr, Inhabited

namespace TokenScope

def all : List TokenScope :=
  [account, builds, characters, guilds, inventories, progression, pvp, tradingpost, unlocks,
   wallet]

def keyword : TokenScope → String
  | account => "account"
  | builds => "builds"
  | characters => "characters"
  | guilds => "guilds"
  | inventories => "inventories"
  | progression => "progression"
  | pvp => "pvp"
  | tradingpost => "tradingpost"
  | unlocks => "unlocks"
  | wallet => "wallet"

def named? (keyword : String) : Option TokenScope := all.find? (·.keyword = keyword)

/-- The listed scopes in order, each once. -/
def distinct (scopes : List TokenScope) : List TokenScope := all.filter (· ∈ scopes)

end TokenScope

/-- Whether a property may be missing. -/
inductive Optionality
  | required
  | optional
  /-- Present whenever the token carries a scope. -/
  | mandatedBy (scope : TokenScope)
  deriving DecidableEq, Repr, Inhabited

/-- Whether a property is always present. -/
def Optionality.isRequired : Optionality → Bool
  | required => true
  | optional | mandatedBy _ => false

/-- A language the API answers in. -/
inductive Language
  | english
  | german
  | spanish
  | french
  | chinese
  deriving DecidableEq, Repr, Inhabited

namespace Language

def all : List Language := [english, german, spanish, french, chinese]

def code : Language → String
  | english => "en"
  | german => "de"
  | spanish => "es"
  | french => "fr"
  | chinese => "zh"

def named? (code : String) : Option Language := all.find? (·.code = code)

/-- The listed languages in order, each once. -/
def distinct (languages : List Language) : List Language := all.filter (· ∈ languages)

end Language

/-- A way to ask an index for elements. -/
inductive IndexQuery
  /-- The IDs of all elements. -/
  | ids
  /-- One element by its ID. -/
  | byId
  /-- Several elements by their IDs, or all of them if that is supported. -/
  | byIds (supportsAll : Bool)
  /-- One page of elements. -/
  | byPage
  deriving DecidableEq, Repr, Inhabited

/-- What the query's name ends in. -/
def IndexQuery.suffix : IndexQuery → String
  | ids => "IDs"
  | byId => "ByID"
  | byIds _ => "ByIDs"
  | byPage => "ByPage"

/-- The ID that asks for every element. -/
def allIdsSentinel : String := "all"

end ApiChronicle
