import ApiChronicle.Json.Tree
import ApiChronicle.Version
import ApiChronicle.Vocabulary

/-! # ApiChronicle.Vocabulary.Written

How the vocabulary is **written in JSON documents**.

A word is a string. A word that takes something along is an object with the word
as its only member. When reading, a plain word may also be written as such an
object, with `null`.
-/

namespace ApiChronicle

open Json (Tree)

namespace Version

/-- A version is written as its text. -/
def toJson (v : Version) : Json := .string v.text

def ofTree? (t : Tree) : Option Version := t.text?.bind named?

end Version

namespace Primitive

/-- Identifiers are written with the type they are made of. -/
def toJson : Primitive → Json
  | integerId => .object [("identifier", .string "integer")]
  | stringId => .object [("identifier", .string "string")]
  | p => .string p.keyword

def ofTree? (t : Tree) : Option Primitive :=
  match t.variant? with
  | some ("identifier", some base) =>
    match base.plainVariant? with
    | some "integer" => some integerId
    | some "string" => some stringId
    | _ => none
  | _ => do
    let p ← named? (← t.plainVariant?)
    if p = integerId ∨ p = stringId then none else return p

end Primitive

namespace TokenScope

/-- A scope is written as its keyword. -/
def toJson (s : TokenScope) : Json := .string s.keyword

def ofTree? (t : Tree) : Option TokenScope := t.plainVariant?.bind named?

end TokenScope

namespace Optionality

/-- The mandating scope is written with the word. -/
def toJson : Optionality → Json
  | required => .string "required"
  | optional => .string "optional"
  | mandatedBy scope => .object [("mandated_by", scope.toJson)]

def ofTree? (t : Tree) : Option Optionality :=
  match t.variant? with
  | some ("mandated_by", some scope) => mandatedBy <$> TokenScope.ofTree? scope
  | _ =>
    match t.plainVariant? with
    | some "required" => some required
    | some "optional" => some optional
    | _ => none

end Optionality

namespace Language

/-- A language is written as its code. -/
def toJson (l : Language) : Json := .string l.code

def ofTree? (t : Tree) : Option Language := t.plainVariant?.bind named?

end Language

namespace IndexQuery

/-- A query by several IDs is written with what it supports. -/
def toJson : IndexQuery → Json
  | ids => .string "ids"
  | byId => .string "by_id"
  | byIds supportsAll => .object [("by_ids", .object [("supports_all", .bool supportsAll)])]
  | byPage => .string "by_page"

def ofTree? (t : Tree) : Option IndexQuery :=
  match t.variant? with
  | some ("by_ids", some body) => do
    let fields ← body.record? ["supports_all"]
    return byIds (← fields.optional? "supports_all" false Tree.bool?)
  | _ =>
    match t.plainVariant? with
    | some "ids" => some ids
    | some "by_id" => some byId
    | some "by_page" => some byPage
    | _ => none

end IndexQuery

end ApiChronicle
