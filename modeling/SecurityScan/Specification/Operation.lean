import SecurityScan.Specification.Tree

namespace SecurityScan.Specification

/-!
# Operations

* `methods` — the keys of a path item that name an operation, in any case of letters;
* `Operation` — a path, a method and what is written under them;
* `operations` — the operations of a document in the order of its entries.
-/

/-- The methods that name an operation. -/
def methods : List String :=
  ["get", "put", "post", "delete", "options", "head", "patch", "trace"]

/-- A key names an operation: upper and lower case of ASCII letters are the same. -/
def isMethod (key : String) : Bool := methods.contains (key.map Char.toLower)

/-- An operation of a specification. -/
structure Operation where
  path : String
  method : String
  node : Json
deriving DecidableEq

namespace Operation

/-- Where findings place the operation. -/
def locator (o : Operation) : String := "paths." ++ o.path ++ "." ++ o.method

/-- What descriptions call the operation. -/
def display (o : Operation) : String := o.method.map Char.toUpper ++ " " ++ o.path

end Operation

/-- The operations of one path item. -/
def operationsOf (path : String) (item : Json) : List Operation :=
  (item.entries.filter fun e => isMethod e.1).map fun e => ⟨path, e.1, e.2⟩

/-- The operations under the paths of a document. -/
def operations (doc : Json) : List Operation :=
  match doc.get? "paths" with
  | some paths => paths.entries.flatMap fun e => operationsOf e.1 e.2
  | none => []

end SecurityScan.Specification
