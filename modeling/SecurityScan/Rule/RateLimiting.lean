import SecurityScan.Specification.Finding
import SecurityScan.Specification.Tree
import SecurityScan.Json.Printer
import SecurityScan.Text.Search

namespace SecurityScan.Rule

open Specification

/-!
# Rate limiting

A document limits rates if it declares the header or the parameter for it, or mentions the matter
anywhere in its text.

* `RateLimiting.check` — one finding on a document that does not.
-/

namespace RateLimiting

/-- The word looked for in the text of the document. -/
def keyword : String := "ratelimit"

/-- The document limits rates. -/
def isLimited (doc : Json) : Bool :=
  declared (doc.at? ["components", "headers", "X-RateLimit-Limit"]) ||
  declared (doc.at? ["components", "parameters", "rate-limit"]) ||
  Text.mentions doc.chars keyword

/-- The finding on a document that does not. -/
def unlimited : Finding where
  severity := .medium
  weakness := .rateLimiting
  description := "No rate limiting mechanisms detected"
  path := rootPath
  recommendation := "Implement rate limiting using headers (X-RateLimit-*) or other mechanisms"

/-- The findings on a document. -/
def check (doc : Json) : List Finding := if isLimited doc then [] else [unlimited]

end RateLimiting

end SecurityScan.Rule
