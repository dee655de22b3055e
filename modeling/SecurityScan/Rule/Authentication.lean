import SecurityScan.Specification.Finding
import SecurityScan.Specification.Operation

namespace SecurityScan.Rule

open Specification

/-!
# Authentication

A document must declare security schemes, and every operation must require one.  An empty list of
requirements counts as a declaration, since it is truthy.

* `Authentication.check` — a finding on the document without schemes, then one on each operation
  without requirements.
-/

namespace Authentication

/-- The document requires security for all its operations. -/
def hasGlobalSecurity (doc : Json) : Bool := declared (doc.get? "security")

/-- The document declares schemes in one of the three places for them. -/
def hasSchemes (doc : Json) : Bool :=
  hasGlobalSecurity doc || declared (doc.get? "securityDefinitions") ||
  declared (doc.at? ["components", "securitySchemes"])

/-- The finding on a document without schemes. -/
def noSchemes : Finding where
  severity := .high
  weakness := .authentication
  description := "No global security schemes defined"
  path := rootPath
  recommendation :=
    "Define security schemes (e.g., OAuth2, API Key) in components.securitySchemes"

/-- The finding on an operation without requirements. -/
def unsecured (o : Operation) : Finding where
  severity := .high
  weakness := .authentication
  description := "Endpoint " ++ o.display ++ " has no security requirements"
  path := o.locator
  recommendation := "Add security requirements to protect the endpoint"

/-- The operation requires security, itself or through the document. -/
def isSecured (doc : Json) (o : Operation) : Bool :=
  declared (o.node.get? "security") || hasGlobalSecurity doc

/-- The findings on a document. -/
def check (doc : Json) : List Finding :=
  (if hasSchemes doc then [] else [noSchemes]) ++
    ((operations doc).filter fun o => !isSecured doc o).map unsecured

end Authentication

end SecurityScan.Rule
