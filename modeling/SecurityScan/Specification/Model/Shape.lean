import SecurityScan.Json.Basic

namespace SecurityScan.Specification.Model

/-!
# Shapes of values

The language in which the model of a specification is written down.

* `Kind` — the objects of the model;
* `Shape` — the values a field admits.
-/

/-- The objects that a specification is made of. -/
inductive Kind where
  | spec | info | contact | license | server | serverVariable | tag | externalDoc | components
  | pathItem | operation | parameter | header | requestBody | mediaType | encoding | response
  | example | linkByReference | linkById | schema | discriminator
  | apiKeyScheme | httpScheme | oauth2Scheme | openIdScheme | mutualTlsScheme
  | flows | implicitFlow | passwordFlow | clientFlow | codeFlow
deriving DecidableEq, Repr

/-- Objects that come in several kinds. -/
inductive Family where
  | securityScheme | link
deriving DecidableEq, Repr

/-- The values a field admits. -/
inductive Shape where
  /-- Every value. -/
  | any
  | bool
  | text
  | number
  /-- An integer that fits an unsigned word. -/
  | word
  /-- The text of an absolute address. -/
  | url
  /-- One of some words. -/
  | oneOf (words : List String)
  /-- Null too. -/
  | orNull (s : Shape)
  | list (s : Shape)
  /-- Any keys, all values of one shape. -/
  | dict (s : Shape)
  | object (k : Kind)
  | family (f : Family)
  /-- A reference, or the value itself. -/
  | orRef (s : Shape)
  /-- A boolean, or the value itself. -/
  | orBool (s : Shape)
  /-- One word, or a list of them. -/
  | oneOrMore (words : List String)
deriving DecidableEq, Repr

/-- A field of an object: a field that is not required may be left out. -/
structure Field where
  name : String
  shape : Shape
  required : Bool := false
deriving DecidableEq, Repr

end SecurityScan.Specification.Model
