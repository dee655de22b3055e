import SecurityScan.Severity

namespace SecurityScan.Source

/-!
# Findings in source text

* `Weakness` — the kinds of weakness that source text can show;
* `Finding` — one weakness and the first line that shows it;
* `Risk` — the risk of a text, which is safe only if nothing is found.
-/

/-- A kind of weakness. -/
inductive Weakness where
  | commandInjection | crossSiteScripting | userExperience | informationLeakage
  | developmentArtifact | regexInjection
deriving DecidableEq, Repr, Inhabited

namespace Weakness

/-- What reports call a weakness. -/
def label : Weakness → String
  | .commandInjection => "Command Injection"
  | .crossSiteScripting => "Cross-Site Scripting (XSS)"
  | .userExperience => "User Experience"
  | .informationLeakage => "Information Leakage"
  | .developmentArtifact => "Development Artifact"
  | .regexInjection => "Regular Expression Injection"

/-- All kinds. -/
def all : List Weakness :=
  [.commandInjection, .crossSiteScripting, .userExperience, .informationLeakage,
    .developmentArtifact, .regexInjection]

instance : Wire Weakness where
  encode w := .str w.label
  decode? := Wire.oneOf? label all

end Weakness

/-- One weakness in a source text. -/
structure Finding where
  severity : Severity
  weakness : Weakness
  /-- The first line that shows the weakness, counted from one; zero if no single line does. -/
  line : Nat
  description : String
  recommendation : String
deriving DecidableEq, Repr, Inhabited

instance : Wire Finding where
  encode f := .obj [
    ("severity", encode f.severity), ("type", encode f.weakness), ("line", encode f.line),
    ("description", encode f.description), ("recommendation", encode f.recommendation)]
  decode? v := do
    let s ← v.slots? ["severity", "type", "line", "description", "recommendation"]
    return {
      severity := ← s.required "severity", weakness := ← s.required "type"
      line := ← s.required "line", description := ← s.required "description"
      recommendation := ← s.required "recommendation" }

/-- The risk of a source text. -/
inductive Risk where
  | high | medium | low | safe
deriving DecidableEq, Repr, Inhabited

namespace Risk

/-- The word for a risk. -/
def name : Risk → String
  | .high => "high"
  | .medium => "medium"
  | .low => "low"
  | .safe => "safe"

/-- All risks. -/
def all : List Risk := [.high, .medium, .low, .safe]

/-- The risk of findings of some severities: the worst of them, and safe if there are none. -/
def ofSeverities (severities : List Severity) : Risk :=
  match Severity.worst? severities with
  | some .high => .high
  | some .medium => .medium
  | some .low => .low
  | none => .safe

instance : Wire Risk where
  encode r := .str r.name
  decode? := Wire.oneOf? name all

end Risk

end SecurityScan.Source
