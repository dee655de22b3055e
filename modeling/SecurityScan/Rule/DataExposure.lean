import SecurityScan.Specification.Finding
import SecurityScan.Specification.Operation
import SecurityScan.Json.Printer
import SecurityScan.Text.Search

namespace SecurityScan.Rule

open Specification

/-!
# Data exposure

A response schema that mentions a sensitive word anywhere in its text may give away what it names.

* `DataExposure.keywords` — the sensitive words;
* `DataExposure.check` — a finding for each response and each word its schema mentions.
-/

namespace DataExposure

/-- The sensitive words. -/
def keywords : List String :=
  ["password", "token", "secret", "key", "auth", "credit", "ssn", "social"]

/-- The schema of a JSON response, if it is declared. -/
def responseSchema? (response : Json) : Option Json :=
  (response.at? ["content", "application/json", "schema"]).filter Json.isTruthy

/-- The finding on a response. -/
def exposed (o : Operation) (code : String) : Finding where
  severity := .medium
  weakness := .dataExposure
  description := "Potential sensitive data exposure in " ++ o.display ++ " response"
  path := o.locator ++ ".responses." ++ code
  recommendation := "Review response schema and ensure sensitive data is not exposed"

/-- The words that the text of a schema mentions. -/
def mentioned (schema : Json) : List String :=
  keywords.filter (Text.mentions schema.chars)

/-- The findings on one response. -/
def checkResponse (o : Operation) (code : String) (response : Json) : List Finding :=
  match responseSchema? response with
  | some schema => (mentioned schema).map fun _ => exposed o code
  | none => []

/-- The findings on one operation. -/
def checkOperation (o : Operation) : List Finding :=
  match o.node.get? "responses" with
  | some responses => responses.entries.flatMap fun e => checkResponse o e.1 e.2
  | none => []

/-- The findings on a document. -/
def check (doc : Json) : List Finding := (operations doc).flatMap checkOperation

end DataExposure

end SecurityScan.Rule
