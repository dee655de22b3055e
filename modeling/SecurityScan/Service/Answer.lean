import SecurityScan.Config.Basic
import SecurityScan.Review.Client
import SecurityScan.Service.Origin
import SecurityScan.Service.Submission
import SecurityScan.Source.Report

namespace SecurityScan

/-!
# The service

* `Service` — what the service needs: settings, limits, and a generator for reviews or the reason
  for which there is none;
* `Service.Route` — the addresses that the service knows;
* `Service.receive` — the body of a request, within its limits;
* `Service.handle` and `Service.answer` — the response of a route, and that to any request.
-/

/-- What the service needs. -/
structure Service where
  scanning : ScanSettings
  reviewer : Except Review.Failure Review.Generator
  origins : Service.AllowedOrigins
  /-- How many octets the body of a request may have. -/
  bodyLimit : Nat

namespace Service

/-- The service of a configuration; reviews go through a network. -/
def ofConfig (c : Config) (network : Review.Post → Review.Delivery) : Service where
  scanning := c.scanning
  reviewer := (Review.Client.ofConfig c.reviewer).map fun client => client.generator network
  origins := .ofList c.server.allowedOrigins
  bodyLimit := c.server.maxBodyBytes.toNat

/-- The service with another generator for reviews. -/
def withReviewer (s : Service) (g : Review.Generator) : Service := { s with reviewer := .ok g }

/-! ### Routes -/

/-- The addresses that the service knows. -/
inductive Route where
  | health | code | specification | review
deriving DecidableEq, Repr

namespace Route

/-- The path of a route. -/
def path : Route → String
  | .health => "/health"
  | .code => "/api/v1/analyze/code"
  | .specification => "/api/v1/analyze/openapi"
  | .review => "/api/v1/analyze/gpt"

/-- All routes. -/
def all : List Route := [.health, .code, .specification, .review]

/-- The route at a path. -/
def ofPath? (path : String) : Option Route := all.find? fun r => r.path == path

/-- The methods that a route takes. -/
def methods : Route → List String
  | .health => ["GET", "HEAD"]
  | _ => ["POST"]

/-- The methods that a route takes, as a header field. -/
def allow (r : Route) : String × String := ("allow", ",".intercalate r.methods)

end Route

/-! ### Bodies -/

/-- The number of octets that a request announces for its body. -/
def Request.announced? (r : Request) : Option Nat :=
  (r.headers.get? "content-length").bind Http.count?

/-- The wording of a fault. -/
def Fault.lead : Fault → String
  | .malformed => "Failed to parse the request body as JSON: "
  | .misfit => "Failed to deserialize the JSON body into the target type: "

/-- The response to a body with a fault. -/
def Fault.response (f : Fault) : Response :=
  match f with
  | .malformed => .of 400 (.text (f.lead ++ "malformed"))
  | .misfit => .of 422 (.text (f.lead ++ "unexpected shape"))

/-- The response to a body of another media type. -/
def wrongType : Response :=
  .of 415 (.text "Expected request with \x60Content-Type: application/json\x60")

/-- The response to a body that is longer than the limit, if it says so in advance. -/
def tooLong : Response := .of 413 (.text "length limit exceeded")

/-- The response to a body that turns out to be too long. -/
def overflow : Response := .of 413 (.text "Failed to buffer the request body: length limit exceeded")

/-- The record in the body of a request.  The media type is looked at first, then the length: a body
    must be no longer than announced. -/
def receive {α : Type} [Wire α] (s : Service) (f : Form) (r : Request) : Except Response α :=
  if !(r.headers.get? "content-type").any Http.isJsonType then .error wrongType
  else if (r.announced?.map (min s.bodyLimit)).getD s.bodyLimit < r.body.utf8ByteSize then
    .error overflow
  else match submitted f r.body with
    | .ok record => .ok record
    | .error fault => .error fault.response

/-! ### Responses -/

/-- The version that the service reports. -/
def version : String := "0.1.0"

/-- The response to a failure. -/
def failed (status : Nat) (code message : String) : Response :=
  .of status (.json (.obj [("code", .str code), ("message", .str message)]))

/-- The response to a submitted text to review. -/
def reviewResponse (s : Service) (submission : CodeSubmission) : Response :=
  match s.reviewer with
  | .error e => failed 503 "CONFIGURATION_ERROR" e.message
  | .ok g =>
    match Review.review g submission.code submission.language with
    | .ok report => .of 200 (.json (encode report))
    | .error e => failed 502 "UPSTREAM_ERROR" e.message

/-- The response of a route to a request with a method it takes. -/
def handle (s : Service) (route : Route) (r : Request) : Response :=
  let response : Except Response Response := match route with
    | .health => .ok (.of 200 (.json (.obj [("status", .str "ok"), ("version", .str version)])))
    | .code => (receive s CodeSubmission.form r).map fun submission : CodeSubmission =>
      .of 200 (.json (encode (Source.analyze submission.code)))
    | .specification =>
      (receive s SpecificationSubmission.form r).map fun submission : SpecificationSubmission =>
        .of 200 (.json (encode (Scanner.outcome Specification.Violation.message
          (scan s.scanning submission.content))))
    | .review => (receive s CodeSubmission.form r).map (reviewResponse s)
  match response with
  | .ok response => response
  | .error refusal => refusal

/-- The response to a request that is no question in advance, without what concerns origins. -/
def respond (s : Service) (r : Request) : Response :=
  if r.announced?.any (s.bodyLimit < ·) then tooLong
  else match Route.ofPath? r.path with
    | none => ⟨404, [], .empty⟩
    | some route =>
      if route.methods.contains r.method then handle s route r else ⟨405, [], .empty⟩

/-- The methods of the route at the request's path, if it takes others only. -/
def allowHeaders (r : Request) : Http.Headers :=
  match Route.ofPath? r.path with
  | some route => if route.methods.contains r.method then [] else [route.allow]
  | none => []

/-- The response to a request. -/
def answer (s : Service) (r : Request) : Response :=
  let response :=
    if r.method = "OPTIONS" then ⟨200, preflightHeaders, .empty⟩ else respond s r
  let response := response.withHeaders (originHeaders s.origins r ++ allowHeaders r)
  if r.method = "HEAD" then response.bare else response

end Service

end SecurityScan
