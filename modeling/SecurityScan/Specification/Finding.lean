import SecurityScan.Severity

namespace SecurityScan.Specification

/-!
# Findings and reports on specifications

* `Weakness` — the kinds of weakness a specification can show;
* `Finding` — one weakness at one place;
* `Report`, `Failure` and `Outcome` — what a scan answers.
-/

/-- A kind of weakness. -/
inductive Weakness where
  | authentication | dataExposure | rateLimiting | inputValidation
deriving DecidableEq, Repr, Inhabited

namespace Weakness

/-- What reports call a weakness. -/
def label : Weakness → String
  | .authentication => "Authentication"
  | .dataExposure => "Data Exposure"
  | .rateLimiting => "Rate Limiting"
  | .inputValidation => "Input Validation"

/-- All kinds. -/
def all : List Weakness := [.authentication, .dataExposure, .rateLimiting, .inputValidation]

instance : Wire Weakness where
  encode w := .str w.label
  decode? := Wire.oneOf? label all

end Weakness

/-- One weakness at one place of a document. -/
structure Finding where
  severity : Severity
  weakness : Weakness
  description : String
  /-- Where the weakness is: `root`, or keys joined by dots. -/
  path : String
  recommendation : String
deriving DecidableEq, Repr, Inhabited

/-- The place of findings on the document as a whole. -/
def rootPath : String := "root"

instance : Wire Finding where
  encode f := .obj [
    ("severity", encode f.severity), ("type", encode f.weakness),
    ("description", encode f.description), ("path", encode f.path),
    ("recommendation", encode f.recommendation)]
  decode? v := do
    let s ← v.slots? ["severity", "type", "description", "path", "recommendation"]
    return {
      severity := ← s.required "severity", weakness := ← s.required "type"
      description := ← s.required "description", path := ← s.required "path"
      recommendation := ← s.required "recommendation" }

/-- What a scan says about a document that could be scanned. -/
structure Report where
  valid : Bool
  overallRisk : Severity
  issues : List Finding
  recommendations : List String
deriving DecidableEq, Repr

instance : Wire Report where
  encode r := .obj [
    ("valid", encode r.valid), ("overallRisk", encode r.overallRisk),
    ("issues", encode r.issues), ("recommendations", encode r.recommendations)]
  decode? v := do
    let s ← v.slots? ["valid", "overallRisk", "issues", "recommendations"]
    return {
      valid := ← s.required "valid", overallRisk := ← s.required "overallRisk"
      issues := ← s.required "issues", recommendations := ← s.required "recommendations" }

/-- What a scan says about a text that could not be scanned. -/
structure Failure where
  valid : Bool
  error : String
deriving DecidableEq, Repr

instance : Wire Failure where
  encode f := .obj [("valid", encode f.valid), ("error", encode f.error)]
  decode? v := do
    let s ← v.slots? ["valid", "error"]
    return { valid := ← s.required "valid", error := ← s.required "error" }

/-- What a scan answers. -/
inductive Outcome where
  | report (r : Report)
  | failure (f : Failure)
deriving DecidableEq, Repr

/-- The answer is a report. -/
def Outcome.isReport : Outcome → Bool
  | .report _ => true
  | .failure _ => false

/-- Nothing marks which of the two an answer is: it is a report if it can be read as one. -/
instance : Wire Outcome where
  encode
    | .report r => encode r
    | .failure f => encode f
  decode? v := match Wire.decode? v with
    | some r => some (.report r)
    | none => (Wire.decode? v).map .failure

end SecurityScan.Specification
