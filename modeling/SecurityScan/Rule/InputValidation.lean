import SecurityScan.Specification.Finding
import SecurityScan.Specification.Operation

namespace SecurityScan.Rule

open Specification

/-!
# Input validation

Every parameter must have a schema or a type, and every request body a schema for JSON.

* `InputValidation.check` — for each operation, a finding on each parameter without either, then one
  on a body without schema.
-/

namespace InputValidation

/-- The parameter says what values it takes. -/
def isTyped (parameter : Json) : Bool :=
  declared (parameter.get? "schema") || declared (parameter.get? "type")

/-- What descriptions call a parameter. -/
def label (parameter : Json) : String :=
  ((parameter.get? "name").bind Json.asStr?).getD "unnamed"

/-- The finding on a parameter. -/
def untyped (o : Operation) (parameter : Json) : Finding where
  severity := .medium
  weakness := .inputValidation
  description := "Parameter " ++ label parameter ++ " lacks schema definition"
  path := o.locator ++ ".parameters"
  recommendation := "Define schema with proper type and format constraints"

/-- The finding on a request body. -/
def schemaless (o : Operation) : Finding where
  severity := .medium
  weakness := .inputValidation
  description := "Request body schema missing in " ++ o.display
  path := o.locator ++ ".requestBody"
  recommendation := "Define request body schema with proper validation constraints"

/-- The parameters of an operation. -/
def parameters (o : Operation) : List Json := ((o.node.get? "parameters").map Json.items).getD []

/-- The operation declares a request body without a schema for JSON. -/
def lacksBodySchema (o : Operation) : Bool :=
  match o.node.get? "requestBody" with
  | some body =>
    body.isTruthy && !declared (body.at? ["content", "application/json", "schema"])
  | none => false

/-- The findings on one operation. -/
def checkOperation (o : Operation) : List Finding :=
  ((parameters o).filter fun p => !isTyped p).map (untyped o) ++
    if lacksBodySchema o then [schemaless o] else []

/-- The findings on a document. -/
def check (doc : Json) : List Finding := (operations doc).flatMap checkOperation

end InputValidation

end SecurityScan.Rule
