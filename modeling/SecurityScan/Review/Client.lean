import SecurityScan.Config.Basic
import SecurityScan.Http.Header
import SecurityScan.Http.Status
import SecurityScan.Json.Reader
import SecurityScan.Review.Answer
import SecurityScan.Review.Generator
import SecurityScan.Text.Utf8
import SecurityScan.Url.Basic

namespace SecurityScan.Review

/-!
# A generator behind an address

* `Client` — an address with a key, a model and a time limit; `Client.ofConfig` takes them from a
  configuration;
* `Post` and `Client.post?` — what is sent for a request;
* `Delivery` — what becomes of it: no connection, no answer, or a reply;
* `Breakdown` and `Client.broken` — what goes wrong before there is a reply, and what it means;
* `Reply.failure` and `Client.read` — what a reply says;
* `Client.complete` and `Client.generator` — the whole exchange.
-/

/-- What the kind of generator is called. -/
structure Identity where
  id : String
  name : String
  version : String
deriving DecidableEq, Repr

/-- An address that requests are sent to. -/
structure Client where
  endpoint : String
  apiKey : String
  model : String
  timeoutSeconds : UInt64
deriving DecidableEq, Repr

/-- The wording of a missing address or key. -/
def missingConfiguration : String :=
  "GPT API configuration is missing. Please set SCANLAB__LLM__ENDPOINT and " ++
  "SCANLAB__LLM__API_KEY in your environment."

namespace Client

/-- What this kind of generator is called. -/
def identity : Identity := ⟨"openai", "OpenAI compatible", "v1"⟩

/-- The client of a configuration, which must have an address and a key. -/
def ofConfig (c : ReviewerConfig) : Except Failure Client :=
  match c.endpoint.bind nonblank, c.apiKey.bind nonblank with
  | some endpoint, some key => .ok ⟨endpoint, key, c.model, c.timeoutSeconds⟩
  | _, _ => .error (.configuration missingConfiguration)

end Client

/-! ### Sending -/

/-- What is sent. -/
structure Post where
  url : Url
  headers : Http.Headers
  body : Json
deriving DecidableEq

/-- The first line of what is sent. -/
def Post.line (p : Post) : String := "POST " ++ p.url.target ++ " HTTP/1.1"

namespace Client

/-- The body for a request: the model and the messages. -/
def body (c : Client) (r : Request) : Json :=
  .obj [("model", encode (r.model.getD c.model)), ("messages", encode r.messages)]

/-- What is sent for a request; nothing if the address is none of the web or the key cannot be
    sent. -/
def post? (c : Client) (r : Request) : Option Post := do
  let url ← Url.parse? c.endpoint
  let authorization := "Bearer " ++ c.apiKey
  if ["http", "https"].contains url.scheme && Http.isFieldValue authorization then
    return ⟨url, [("content-type", "application/json"), ("authorization", authorization)],
      c.body r⟩
  else none

end Client

/-! ### Replies -/

/-- What a server answers. -/
structure Reply where
  status : Nat
  headers : Http.Headers
  octets : List UInt8
deriving DecidableEq, Repr

/-- What becomes of something sent. -/
inductive Delivery where
  /-- There is no connection. -/
  | refused
  /-- The connection ends without an answer. -/
  | closed
  /-- No answer comes in time. -/
  | silent
  | answered (r : Reply)
deriving DecidableEq, Repr

namespace Reply

/-- The text of a reply. -/
def text (r : Reply) : String :=
  if Http.isBodiless r.status then "" else String.ofList (Text.decodeOctets r.octets)

/-- The seconds to wait that a reply asks for. -/
def retryAfter? (r : Reply) : Option Nat :=
  (r.headers.get? "retry-after").bind fun v => Http.count? (Http.received v)

/-- The message in the text of a reply: the member `message`, or else that of the member `error`.
    A text without one, and a text in which it is no string, is the message itself. -/
def failureText (text : String) : String :=
  let found := (Json.load? text).bind fun v =>
    match v.get? "message" with
    | some m => some m
    | none => (v.get? "error").bind (·.get? "message")
  (found.bind Json.asStr?).getD text

/-- The failure that a reply other than a success means. -/
def failure (r : Reply) : Failure :=
  let message := failureText r.text
  if r.status = 429 then .rateLimited message r.retryAfter?
  else if r.status = 401 ∨ r.status = 403 then .authentication message
  else if Http.isServerError r.status then .serviceUnavailable message
  else .invalidResponse ("API error " ++ Http.statusText r.status ++ ": " ++ message)

end Reply

/-! ### Breakdowns -/

/-- What goes wrong before there is a reply. -/
structure Breakdown where
  /-- The time is over. -/
  isTimeout : Bool := false
  /-- It goes wrong while a connection is made. -/
  isConnect : Bool := false
  /-- What comes back cannot be decoded. -/
  isDecode : Bool := false
  text : String
deriving DecidableEq, Repr

namespace Breakdown

/-- There is no connection. -/
def refused : Breakdown := { isConnect := true, text := "no connection" }

/-- The connection ends without an answer. -/
def closed : Breakdown := { text := "connection closed before message completed" }

/-- No answer comes in time. -/
def silent : Breakdown := { isTimeout := true, text := "operation timed out" }

/-- There is nothing that could be sent. -/
def unsendable : Breakdown := { text := "builder error" }

end Breakdown

/-- The failure that a breakdown means to someone who does not know the time limit. -/
def Failure.ofBreakdown (b : Breakdown) : Failure :=
  if b.isTimeout then .timeout 0
  else if b.isConnect then .network ("Connection failed: " ++ b.text)
  else if b.isDecode then .invalidResponse b.text
  else .network b.text

/-- The failure that a breakdown means. -/
def Client.broken (c : Client) (b : Breakdown) : Failure :=
  if b.isTimeout then .timeout c.timeoutSeconds else .ofBreakdown b

/-! ### The exchange -/

namespace Client

/-- The completion that the text of a successful reply holds. -/
def read (c : Client) (text : String) : Except Failure Completion :=
  match (Json.excerpt? Answer.shape text).bind Wire.decode? with
  | none => .error (.invalidResponse "JSON parse error")
  | some answer =>
    match Answer.completion c.model answer with
    | .ok completion => .ok completion
    | .error gap => .error (.invalidResponse gap.message)

/-- What becomes of a request, given what becomes of what is sent for it. -/
def outcome (c : Client) : Delivery → Except Failure Completion
  | .refused => .error (c.broken .refused)
  | .closed => .error (c.broken .closed)
  | .silent => .error (c.broken .silent)
  | .answered r => if Http.isSuccess r.status then c.read r.text else .error r.failure

/-- Sends a request through a network. -/
def complete (c : Client) (network : Post → Delivery) (r : Request) : Except Failure Completion :=
  match c.post? r with
  | some post => c.outcome (network post)
  | none => .error (c.broken .unsendable)

/-- The generator behind the address. -/
def generator (c : Client) (network : Post → Delivery) : Generator := ⟨c.model, c.complete network⟩

end Client

end SecurityScan.Review
