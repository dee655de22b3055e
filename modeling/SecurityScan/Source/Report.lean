import SecurityScan.Source.Probe
import SecurityScan.Source.SecureExample

namespace SecurityScan.Source

/-!
# Reports on source text

* `generalSuggestions` and `suggestionsFor` — the advice that goes with some findings;
* `Report` and `analyze` — the report on a text.
-/

/-- The advice that goes with every report. -/
def generalSuggestions : List String :=
  ["Regularly update dependencies to patch security vulnerabilities",
    "Implement proper input validation and sanitization",
    "Use security headers and enable HTTPS",
    "Implement Content Security Policy (CSP)",
    "Use HTTPS-only cookies with appropriate flags",
    "Implement proper error handling without exposing sensitive details"]

/-- Appends to `done` the texts that are not there yet, one after the other. -/
def addDistinct (done : List String) : List String → List String
  | [] => done
  | s :: rest => addDistinct (if done.contains s then done else done ++ [s]) rest

/-- The recommendations of the findings and the general advice, each once. -/
def suggestionsFor (fs : List Finding) : List String :=
  addDistinct [] (((fs.map (·.recommendation)).filter (· ≠ "")) ++ generalSuggestions)

/-- The report on a source text. -/
structure Report where
  vulnerabilities : List Finding
  suggestions : List String
  overallRisk : Risk
  secureCodeExample : Option String
deriving DecidableEq, Repr

instance : Wire Report where
  encode r := .obj [
    ("vulnerabilities", encode r.vulnerabilities), ("suggestions", encode r.suggestions),
    ("overallRisk", encode r.overallRisk), ("secureCodeExample", encode r.secureCodeExample)]
  decode? v := do
    let s ← v.slots? ["vulnerabilities", "suggestions", "overallRisk", "secureCodeExample"]
    return {
      vulnerabilities := ← s.required "vulnerabilities"
      suggestions := ← s.required "suggestions", overallRisk := ← s.required "overallRisk"
      secureCodeExample := ← s.optional "secureCodeExample" }

/-- The report on a source text; an example goes with it only if something was found. -/
def analyze (code : String) : Report :=
  let text := code.toList
  let fs := findings text
  { vulnerabilities := fs
    suggestions := suggestionsFor fs
    overallRisk := Risk.ofSeverities (fs.map (·.severity))
    secureCodeExample := if fs.isEmpty then none else secureExample? text }

end SecurityScan.Source
