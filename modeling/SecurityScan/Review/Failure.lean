namespace SecurityScan.Review

/-!
# Why a review fails

* `Failure` — the causes;
* `Failure.message` — their wording;
* `Failure.isRetryable` — the causes that may pass by themselves.
-/

/-- Why a generator gives no answer. -/
inductive Failure where
  /-- The key is refused. -/
  | authentication (text : String)
  /-- Too many requests; the generator may say how many seconds to wait. -/
  | rateLimited (text : String) (retryAfter : Option Nat)
  /-- The generator is not reached. -/
  | network (text : String)
  /-- No answer came in time. -/
  | timeout (seconds : UInt64)
  /-- The generator has a fault of its own. -/
  | serviceUnavailable (text : String)
  /-- The answer is not understood. -/
  | invalidResponse (text : String)
  /-- There is no usable address or key. -/
  | configuration (text : String)
  | other (text : String)
deriving DecidableEq, Repr

namespace Failure

/-- The wording of a failure. -/
def message : Failure → String
  | .authentication text => "Authentication failed: " ++ text
  | .rateLimited text none => "Rate limited: " ++ text
  | .rateLimited text (some seconds) =>
    "Rate limited: " ++ text ++ " (retry after " ++ toString seconds ++ "s)"
  | .network text => "Network error: " ++ text
  | .timeout seconds => "Request timed out after " ++ toString seconds.toNat ++ "s"
  | .serviceUnavailable text => "Service unavailable: " ++ text
  | .invalidResponse text => "Invalid response: " ++ text
  | .configuration text => text
  | .other text => "LLM error: " ++ text

/-- The same request may succeed later. -/
def isRetryable : Failure → Bool
  | .rateLimited _ _ | .network _ | .timeout _ | .serviceUnavailable _ => true
  | _ => false

/-- Only another configuration can help. -/
def isConfiguration : Failure → Bool
  | .configuration _ => true
  | _ => false

end Failure

end SecurityScan.Review
