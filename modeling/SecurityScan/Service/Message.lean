import SecurityScan.Http.Header
import SecurityScan.Json.Basic

namespace SecurityScan.Service

/-!
# Requests and responses

* `Request` — what a caller sends; `Request.path` is the path of its address;
* `Content` and `Response` — what the service answers.
-/

/-- What a caller sends. -/
structure Request where
  method : String
  /-- The address: a path, perhaps with a query, or a whole URL. -/
  uri : String
  headers : Http.Headers := []
  body : String := ""
deriving DecidableEq, Repr

/-- What follows the name of the machine in a whole URL; an address that is no URL is a path. -/
def afterAuthority (cs : List Char) : List Char :=
  match (cs.dropWhile fun c => c ≠ ':' && c ≠ '/') with
  | ':' :: '/' :: '/' :: rest => rest.dropWhile fun c => !(['/', '?', '#'].contains c)
  | _ => cs

/-- The path of the address, without query and fragment. -/
def Request.path (r : Request) : String :=
  let path := (afterAuthority r.uri.toList).takeWhile fun c => c ≠ '?' && c ≠ '#'
  if path.isEmpty then "/" else String.ofList path

/-- The body of a response. -/
inductive Content where
  | empty
  | text (s : String)
  | json (v : Json)
deriving DecidableEq, Repr

/-- The media type of a body. -/
def Content.type? : Content → Option String
  | .empty => none
  | .text _ => some "text/plain; charset=utf-8"
  | .json _ => some "application/json"

/-- What the service answers. -/
structure Response where
  status : Nat
  headers : Http.Headers := []
  content : Content := .empty
deriving DecidableEq, Repr

namespace Response

/-- A response with a body and its media type. -/
def of (status : Nat) (content : Content) : Response where
  status := status
  headers := (content.type?.map fun t => ("content-type", t)).toList
  content := content

/-- Adds header fields behind those there are. -/
def withHeaders (r : Response) (hs : Http.Headers) : Response := { r with headers := r.headers ++ hs }

/-- The response without its body. -/
def bare (r : Response) : Response := { r with content := .empty }

end Response

end SecurityScan.Service
