import SecurityScan.Source.Pattern
import SecurityScan.Source.Finding

namespace SecurityScan.Source

/-!
# Probes

* `LineTest` and `Probe` — a pattern to look for, and how the line to report is chosen;
* `Probe.firstLine` — the first line that passes the test, counted from one;
* `Probe.check?` — the finding of a probe on a text;
* `Probe.all` — the nine probes in the order of their findings.
-/

/-- How a probe chooses the line it reports. -/
inductive LineTest where
  /-- The line holds a text. -/
  | holds (text : String)
  /-- The probe's own pattern matches in the line. -/
  | matchesPattern
deriving DecidableEq, Repr

/-- A pattern that shows a weakness. -/
structure Probe where
  id : String
  pattern : Pattern
  lineTest : LineTest
  severity : Severity
  weakness : Weakness
  description : String
  recommendation : String

namespace Probe

/-- The line passes the test. -/
def passes (p : Probe) (line : List Char) : Bool :=
  match p.lineTest with
  | .holds text => Text.occurs text.toList line
  | .matchesPattern => p.pattern.occurs line

/-- The first line that passes the test, counted from one; zero if none does. -/
def firstLine (p : Probe) (text : List Char) : Nat :=
  match (Text.lines text).findIdx? p.passes with
  | some i => i + 1
  | none => 0

/-- The pattern matches somewhere in the text. -/
def fires (p : Probe) (text : List Char) : Bool := p.pattern.occurs text

/-- The finding on a text in which the pattern matches. -/
def finding (p : Probe) (text : List Char) : Finding where
  severity := p.severity
  weakness := p.weakness
  line := p.firstLine text
  description := p.description
  recommendation := p.recommendation

/-- The finding of the probe on a text. -/
def check? (p : Probe) (text : List Char) : Option Finding :=
  if p.fires text then some (p.finding text) else none

/-! ### The nine probes -/

/-- White space of any length. -/
def blanks : Piece := .run .blank

/-- The rest of a line, as much of it as it takes. -/
def anything : Piece := .run .inLine

/-- A call of `eval`. -/
def eval : Probe where
  id := "eval"
  pattern := .edge :: literal "eval" ++ blanks :: literal "("
  lineTest := .holds "eval"
  severity := .high
  weakness := .commandInjection
  description := "Using eval() can execute arbitrary JavaScript code and is extremely dangerous"
  recommendation := "Avoid using eval(). Use safer alternatives like JSON.parse() for JSON data."

/-- An assignment to `innerHTML`. -/
def innerHtml : Probe where
  id := "inner-html"
  pattern := literal ".innerHTML" ++ blanks :: literal "="
  lineTest := .holds "innerHTML"
  severity := .high
  weakness := .crossSiteScripting
  description := "Using innerHTML can lead to XSS vulnerabilities"
  recommendation := "Use textContent or createElement instead of innerHTML"

/-- A timer that is given source text. -/
def stringTimer : Probe where
  id := "string-timer"
  pattern :=
    literal "set" ++ .word ["Timeout", "Interval"] :: blanks :: literal "(" ++
      [blanks, .one (.among ['"', '\''])]
  lineTest := .matchesPattern
  severity := .high
  weakness := .commandInjection
  description :=
    "Using setTimeout/setInterval with string arguments is similar to eval() and poses security risks"
  recommendation := "Use functions instead of strings with setTimeout/setInterval"

/-- A call of `document.write`. -/
def documentWrite : Probe where
  id := "document-write"
  pattern := literal "document.write" ++ blanks :: literal "("
  lineTest := .holds "document.write"
  severity := .medium
  weakness := .crossSiteScripting
  description := "document.write can lead to XSS vulnerabilities and is bad for performance"
  recommendation := "Use DOM manipulation methods instead of document.write"

/-- A call of a browser popup. -/
def nativePopup : Probe where
  id := "native-popup"
  pattern := .edge :: .word ["alert", "confirm", "prompt"] :: blanks :: literal "("
  lineTest := .matchesPattern
  severity := .low
  weakness := .userExperience
  description :=
    "Using alert/confirm/prompt is bad for user experience and can expose sensitive information"
  recommendation := "Use custom modal dialogs instead of browser native popups"

/-- Output to the console. -/
def consoleOutput : Probe where
  id := "console-output"
  pattern :=
    literal "console." ++ .word ["log", "debug", "info", "warn", "error"] :: blanks :: literal "("
  lineTest := .matchesPattern
  severity := .low
  weakness := .informationLeakage
  description := "Console logs may expose sensitive information in production"
  recommendation := "Remove console logs or use proper logging service in production"

/-- A `debugger` statement. -/
def debuggerStatement : Probe where
  id := "debugger"
  pattern := .edge :: literal "debugger" ++ [.edge]
  lineTest := .holds "debugger"
  severity := .medium
  weakness := .developmentArtifact
  description := "Debugger statements should not be present in production code"
  recommendation := "Remove all debugger statements before deployment"

/-- A regular expression put together at run time. -/
def dynamicRegexp : Probe where
  id := "dynamic-regexp"
  pattern := literal "new RegExp(" ++ anything :: literal "+" ++ anything :: literal ")"
  lineTest := .matchesPattern
  severity := .high
  weakness := .regexInjection
  description := "Dynamic regular expressions can lead to ReDoS attacks"
  recommendation := "Use static regular expressions or validate dynamic parts carefully"

/-- A call of `html` on a wrapped set. -/
def jqueryHtml : Probe where
  id := "jquery-html"
  pattern := literal "$(" ++ anything :: literal ").html("
  lineTest := .matchesPattern
  severity := .high
  weakness := .crossSiteScripting
  description := "Using jQuery .html() with untrusted content can lead to XSS"
  recommendation := "Use .text() instead of .html() or sanitize content properly"

/-- The probes in the order of their findings. -/
def all : List Probe :=
  [eval, innerHtml, stringTimer, documentWrite, nativePopup, consoleOutput, debuggerStatement,
    dynamicRegexp, jqueryHtml]

/-- The probe with an identifier. -/
def find? (id : String) : Option Probe := all.find? fun p => p.id == id

end Probe

/-- The findings of all probes on a text. -/
def findings (text : List Char) : List Finding := Probe.all.filterMap fun p => p.check? text

end SecurityScan.Source
