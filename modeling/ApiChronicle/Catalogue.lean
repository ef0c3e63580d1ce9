import ApiChronicle.Endpoint
import ApiChronicle.Listing
import ApiChronicle.Scope

/-! # ApiChronicle.Catalogue

**Catalogues**: documents in which an API is written down.

A catalogue lists aliases, types, endpoints and auxiliary types. Types refer to
one another by text: a primitive keyword, the key of an alias, or a dotted path of
keys of types. A catalogue is only data; what its references mean is the matter of
`Catalogue.References`, and the API it describes that of `Catalogue.Definition`.
-/

namespace ApiChronicle.Catalogue

/-- A reference to a type as it is written. -/
inductive TypeRef
  | named (reference : String)
  | array (elements : TypeRef) (nullable : Bool)
  | map (keys values : TypeRef) (nullable : Bool)
  deriving DecidableEq, Repr

/-- A property, for one of its windows. -/
structure PropertyEntry where
  type : TypeRef
  /-- The name; the serial name if none is given. -/
  name : Option String
  description : String
  optional : Bool
  mandatedBy : Option TokenScope
  deprecated : Bool
  inline : Bool
  lenient : Bool
  localized : Bool
  since : Option Version
  stop : Option Version
  deriving DecidableEq, Repr

/-- An interpretation, for one of its windows. -/
structure InterpretationEntry where
  type : TypeRef
  description : String
  nestProperty : Option String
  deprecated : Bool
  since : Option Version
  stop : Option Version
  deriving DecidableEq, Repr

structure ElementEntry where
  name : String
  type : TypeRef
  description : String
  deriving DecidableEq, Repr

/-- What a type is made of. -/
inductive TypeBody
  | record (properties : Listing (List PropertyEntry))
  | conditional (selector : Selector) (shared : Listing (List PropertyEntry))
      (interpretations : Listing (List InterpretationEntry))
  | enumeration (underlying : String) (values : List EnumValue)
  | tuple (elements : List ElementEntry)
  deriving DecidableEq, Repr

/-- A type and the types declared inside it. -/
inductive TypeEntry
  | mk (description : String) (body : TypeBody) (nested : List (String × TypeEntry))
  deriving Repr

structure AliasEntry where
  /-- The keyword of a primitive. -/
  primitive : String
  description : String
  deriving DecidableEq, Repr

structure ParameterEntry where
  type : TypeRef
  description : String
  optional : Bool
  deriving DecidableEq, Repr

structure EndpointEntry where
  name : String
  path : String
  summary : String
  cacheSeconds : Option Nat
  security : List TokenScope
  localized : Bool
  since : Option Version
  stop : Option Version
  pathParameters : Listing ParameterEntry
  queryParameters : Listing ParameterEntry
  /-- The response from the oldest version on. -/
  schema : Option TypeRef
  /-- The responses from given versions on. -/
  schemas : List (Version × TypeRef)
  index : Option Index
  deriving DecidableEq, Repr

end ApiChronicle.Catalogue

namespace ApiChronicle

/-- An API as it is written down. -/
structure Catalogue where
  /-- The languages of the API; all of them if none are given. -/
  languages : Option (List Language)
  aliases : Listing Catalogue.AliasEntry
  types : Listing Catalogue.TypeEntry
  endpoints : List Catalogue.EndpointEntry
  /-- References to the auxiliary types. -/
  auxiliary : List String

end ApiChronicle
