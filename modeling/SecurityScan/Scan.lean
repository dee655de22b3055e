import SecurityScan.Specification.Load
import SecurityScan.Specification.Validation
import SecurityScan.Rule.Table

namespace SecurityScan

open Specification

/-!
# Scanning a specification

* `ScanError` — why a text is not scanned;
* `Scanner` — how documents are judged, and what is looked for in those that pass;
* `Scanner.scan` — the report on a text: load, validate, replace references, look, leave out what is
  excluded; `Scanner.scanLogged` also lists what was looked at;
* `ScanSettings` — which rules run and which places are left out;
* `scan` — a scan with the rules of this library.
-/

/-- Why a text is not scanned. -/
inductive ScanError (ε : Type) where
  | load (e : LoadError)
  | invalid (e : ε)
deriving DecidableEq, Repr

/-- The wording of a text that does not load. -/
def Specification.LoadError.message : LoadError → String
  | .empty => "Specification content is empty"
  | .malformed => "Specification content is neither JSON nor YAML"

/-- The wording of a scan that fails. -/
def ScanError.message {ε : Type} (wording : ε → String) : ScanError ε → String
  | .load e => e.message
  | .invalid e => wording e

/-- The advice that goes with every report. -/
def generalRecommendations : List String :=
  ["Always use HTTPS for API endpoints",
    "Implement proper authentication and authorization",
    "Use rate limiting to prevent abuse",
    "Validate all input parameters",
    "Implement proper error handling",
    "Use appropriate HTTP methods",
    "Version your API endpoints"]

/-- The risk of some findings: the worst of their severities, low if there are none. -/
def overallRisk (issues : List Finding) : Severity :=
  (Severity.worst? (issues.map (·.severity))).getD .low

/-- The report on some findings. -/
def reportOn (issues : List Finding) : Report where
  valid := true
  overallRisk := overallRisk issues
  issues := issues
  recommendations := generalRecommendations

/-- An entry of the list of excluded places covers a path: every path that starts with it, and for a
    star every path but the root. -/
def excludes (entry path : String) : Bool :=
  (entry == "*" && path != rootPath) || path.startsWith entry

/-- How documents are judged, and what is looked for in those that pass. -/
structure Scanner (ε : Type) where
  validate : Json → Except ε Unit
  look : Json → List Finding
  excluded : List String

namespace Scanner

variable {ε : Type}

/-- The findings that are not excluded. -/
def keep (s : Scanner ε) (issues : List Finding) : List Finding :=
  issues.filter fun f => !s.excluded.any fun entry => excludes entry f.path

/-- The report on a text.  The state lists the documents that were looked at: the text's document
    with its references replaced, if it loads and is valid. -/
def scanLogged (s : Scanner ε) (text : String) :
    StateM (List Json) (Except (ScanError ε) Report) := do
  match load text with
  | .error e => return .error (.load e)
  | .ok doc =>
    match s.validate doc with
    | .error e => return .error (.invalid e)
    | .ok () =>
      let resolved := dereference doc
      modify (· ++ [resolved])
      return .ok (reportOn (s.keep (s.look resolved)))

/-- The report on a text. -/
def scan (s : Scanner ε) (text : String) : Except (ScanError ε) Report := (s.scanLogged text []).1

section

variable (s : Scanner ε) {text : String} {doc : Json}

/-- A text that does not load is not scanned. -/
theorem scan_of_not_loaded {e : LoadError} (hload : load text = .error e) :
    s.scan text = .error (.load e) := by
  rw [scan, scanLogged, hload]
  rfl

/-- A document that is not valid is not scanned. -/
theorem scan_of_invalid {e : ε} (hload : load text = .ok doc) (hinvalid : s.validate doc = .error e) :
    s.scan text = .error (.invalid e) := by
  rw [scan, scanLogged, hload]
  dsimp only
  rw [hinvalid]
  rfl

/-- A valid document is looked at with its references replaced. -/
theorem scan_of_valid (hload : load text = .ok doc) (hvalid : s.validate doc = .ok ()) :
    s.scan text = .ok (reportOn (s.keep (s.look (dereference doc)))) := by
  rw [scan, scanLogged, hload]
  dsimp only
  rw [hvalid]
  rfl

end

/-- The answer of a scan. -/
def outcome (wording : ε → String) : Except (ScanError ε) Report → Outcome
  | .ok report => .report report
  | .error e => .failure ⟨false, e.message wording⟩

end Scanner

/-! ### The scanner of this library -/

/-- Which rules run and which places are left out. -/
structure ScanSettings where
  /-- The names of the rules that run; all rules run if there are none. -/
  enabledAnalyzers : List String := []
  excludePaths : List String := []
deriving DecidableEq, Repr

instance : Wire ScanSettings where
  encode c := .obj [
    ("enabled_analyzers", encode c.enabledAnalyzers), ("exclude_paths", encode c.excludePaths)]
  decode? v := do
    let s ← v.slots? ["enabled_analyzers", "exclude_paths"]
    return {
      enabledAnalyzers := ← s.withDefault "enabled_analyzers" []
      excludePaths := ← s.withDefault "exclude_paths" [] }

/-- The scanner with the given settings. -/
def scannerFor (c : ScanSettings) : Scanner Violation where
  validate := validate
  look := Rule.run (Rule.selected c.enabledAnalyzers)
  excluded := c.excludePaths

/-- The report on a text. -/
def scan (c : ScanSettings) (text : String) : Except (ScanError Violation) Report :=
  (scannerFor c).scan text

end SecurityScan
