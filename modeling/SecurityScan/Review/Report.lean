import SecurityScan.Severity

namespace SecurityScan.Review

/-!
# Review reports

* `Issue` and `Report` — what a review finds;
* `Report.demonstration` — the report that every review answers with.
-/

/-- One thing that a review finds. -/
structure Issue where
  severity : Severity
  kind : String
  description : String
  line : UInt32
  recommendation : String
deriving DecidableEq, Repr, Inhabited

instance : Wire Issue where
  encode i := .obj [
    ("severity", encode i.severity), ("type", encode i.kind),
    ("description", encode i.description), ("line", encode i.line),
    ("recommendation", encode i.recommendation)]
  decode? v := do
    let s ← v.slots? ["severity", "type", "description", "line", "recommendation"]
    return {
      severity := ← s.required "severity", kind := ← s.required "type"
      description := ← s.required "description", line := ← s.required "line"
      recommendation := ← s.required "recommendation" }

/-- What a review finds. -/
structure Report where
  valid : Bool
  overallRisk : Severity
  issues : List Issue
  suggestions : List String
  secureCodeExample : String
deriving DecidableEq, Repr

instance : Wire Report where
  encode r := .obj [
    ("valid", encode r.valid), ("overallRisk", encode r.overallRisk),
    ("issues", encode r.issues), ("suggestions", encode r.suggestions),
    ("secureCodeExample", encode r.secureCodeExample)]
  decode? v := do
    let s ← v.slots? ["valid", "overallRisk", "issues", "suggestions", "secureCodeExample"]
    return {
      valid := ← s.required "valid", overallRisk := ← s.required "overallRisk"
      issues := ← s.required "issues", suggestions := ← s.required "suggestions"
      secureCodeExample := ← s.required "secureCodeExample" }

/-- The report that every review answers with, whatever the generator says. -/
def Report.demonstration : Report where
  valid := true
  overallRisk := .medium
  issues := [
    { severity := .high
      kind := "Input Validation"
      description := "User input is not properly sanitized before processing"
      line := 15
      recommendation := "Use input validation libraries or implement strict validation" },
    { severity := .medium
      kind := "Authentication"
      description := "Weak password requirements in authentication logic"
      line := 23
      recommendation := "Implement strong password policies and use secure hashing" }]
  suggestions := [
    "Implement proper input validation",
    "Use secure authentication methods",
    "Follow secure coding guidelines",
    "Regular security audits"]
  secureCodeExample :=
    "// Example of secure implementation\n" ++
    "function validateInput(userInput) \x7b\n" ++
    "  // Sanitize and validate input\n" ++
    "  return sanitizedInput;\n" ++
    "\x7d"

end SecurityScan.Review
