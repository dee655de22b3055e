import SecurityScan.Text.Blank
import SecurityScan.Json.Reader
import SecurityScan.Yaml.Expansion
import SecurityScan.Yaml.Document

namespace SecurityScan.Specification

/-!
# Loading a specification

A specification is written in JSON or in YAML; either way the document is a `Json` value.

* `LoadError` — why a text is no specification;
* `load` — the document of a text: JSON if the text is JSON, else YAML.
-/

/-- Why a text gives no document. -/
inductive LoadError where
  /-- There is nothing but blanks. -/
  | empty
  /-- The text is neither JSON nor YAML. -/
  | malformed
deriving DecidableEq, Repr

/-- The document of a text. -/
def load (text : String) : Except LoadError Json :=
  if (Text.trim text).isEmpty then .error .empty
  else match Json.load? text with
    | some doc => .ok doc
    | none => match Yaml.parse? text with
      | some v => .ok v.toJson
      | none => .error .malformed

end SecurityScan.Specification
