import SecurityScan.Service.Message

namespace SecurityScan.Service

/-!
# Requests from other origins

Browsers ask which origins may read a response, and before some requests what may be sent at all.

* `AllowedOrigins` — the origins that may read responses; `AllowedOrigins.ofList` takes them from a
  configuration;
* `originHeaders` — what every response says;
* `preflightHeaders` — what the answer to a question in advance says besides.
-/

/-- The origins that may read responses. -/
inductive AllowedOrigins where
  | all
  | only (origins : List String)
deriving DecidableEq, Repr

/-- The origins of a list: all if it is empty or holds a star; entries that cannot be sent in a
    header are passed over. -/
def AllowedOrigins.ofList (origins : List String) : AllowedOrigins :=
  if origins.isEmpty || origins.contains "*" then .all
  else .only (origins.filter Http.isFieldValue)

/-- The origin may read responses. -/
def AllowedOrigins.allows (a : AllowedOrigins) (origin : String) : Bool :=
  match a with
  | .all => true
  | .only origins => origins.contains origin

/-- What every response says: on what it depends, and the origin of the request if it is allowed. -/
def originHeaders (a : AllowedOrigins) (r : Request) : Http.Headers :=
  let origin := (r.headers.get? "origin").filter a.allows
  (origin.map fun o => ("access-control-allow-origin", o)).toList ++
    [("vary", "origin, access-control-request-method, access-control-request-headers")]

/-- What the answer to a question in advance says besides. -/
def preflightHeaders : Http.Headers :=
  [("access-control-allow-methods", "GET,POST,OPTIONS"),
    ("access-control-allow-headers", "content-type,authorization,accept,origin"),
    ("access-control-max-age", "3600")]

end SecurityScan.Service
