import SecurityScan.Review.Message
import SecurityScan.Review.Failure
import SecurityScan.Review.Prompt
import SecurityScan.Review.Report

namespace SecurityScan.Review

/-!
# Reviews

* `Generator` — something that continues conversations;
* `reviewRequest` — the one request that a review sends;
* `reviewLogged` and `review` — a review of a source text, with and without the requests sent.
-/

/-- Something that continues conversations. -/
structure Generator where
  /-- The model that answers requests that name none. -/
  defaultModel : String
  complete : Request → Except Failure Completion

/-- The request that a review sends. -/
def reviewRequest (g : Generator) (code language : String) : Request :=
  (((({} : Request).withModel g.defaultModel).withSystem instruction).withUser
    (question code language))

/-- A review of a source text.  The state lists the requests that were sent.  An answer has to
    arrive, but what it says is not looked at. -/
def reviewLogged (g : Generator) (code language : String) :
    StateM (List Request) (Except Failure Report) := do
  let request := reviewRequest g code language
  modify (· ++ [request])
  match g.complete request with
  | .ok _ => return .ok .demonstration
  | .error e => return .error e

/-- A review of a source text. -/
def review (g : Generator) (code language : String) : Except Failure Report :=
  (reviewLogged g code language []).1

end SecurityScan.Review
