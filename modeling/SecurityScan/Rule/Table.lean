import SecurityScan.Rule.Authentication
import SecurityScan.Rule.DataExposure
import SecurityScan.Rule.RateLimiting
import SecurityScan.Rule.InputValidation

namespace SecurityScan

open Specification

/-!
# The rules and their selection

* `Rule` and `Rule.all` — the four rules in the order in which they run;
* `Rule.selected` — the rules that a list of names stands for;
* `Rule.run` — the findings of several rules, one rule after the other.
-/

/-- A rule about specifications. -/
inductive Rule where
  | authentication | dataExposure | rateLimiting | inputValidation
deriving DecidableEq, Repr

namespace Rule

/-- The rules in the order in which they run. -/
def all : List Rule := [.authentication, .dataExposure, .rateLimiting, .inputValidation]

/-- The name of a rule. -/
def name : Rule → String
  | .authentication => "authentication"
  | .dataExposure => "data_exposure"
  | .rateLimiting => "rate_limiting"
  | .inputValidation => "input_validation"

/-- The kind of weakness a rule finds. -/
def weakness : Rule → Weakness
  | .authentication => .authentication
  | .dataExposure => .dataExposure
  | .rateLimiting => .rateLimiting
  | .inputValidation => .inputValidation

/-- The findings of a rule on a document. -/
def check : Rule → Json → List Finding
  | .authentication => Authentication.check
  | .dataExposure => DataExposure.check
  | .rateLimiting => RateLimiting.check
  | .inputValidation => InputValidation.check

/-- A rule goes by its name, alone or followed by `_analyzer`, in any case of letters. -/
def isNamed (r : Rule) (given : String) : Bool :=
  Text.sameWord given r.name || Text.sameWord given (r.name ++ "_analyzer")

/-- The rules named in a list, in their own order; all of them if the list is empty. -/
def selected (names : List String) : List Rule :=
  if names.isEmpty then all else all.filter fun r => names.any r.isNamed

/-- The findings of several rules. -/
def run (rules : List Rule) (doc : Json) : List Finding := rules.flatMap fun r => r.check doc

end Rule

end SecurityScan
