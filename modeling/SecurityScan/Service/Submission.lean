import SecurityScan.Json.Excerpt
import SecurityScan.Json.Wire

namespace SecurityScan.Service

/-!
# What callers submit

* `CodeSubmission` and `SpecificationSubmission` — the bodies of requests, records of texts;
* `Fault` — a body is no JSON, or it is JSON of another shape;
* `Reading` — the reading of such a record, lexeme by lexeme;
* `Fault.ofText?` — the fault of a body: whichever comes first in its text;
* `submitted` — the record that a body holds, or its fault.
-/

/-- Source text to look at. -/
structure CodeSubmission where
  code : String
  language : String := "javascript"
deriving DecidableEq, Repr

instance : Wire CodeSubmission where
  encode s := .obj [("code", encode s.code), ("language", encode s.language)]
  decode? v := do
    let s ← v.slots? ["code", "language"]
    return { code := ← s.required "code", language := ← s.withDefault "language" "javascript" }

/-- A specification to scan. -/
structure SpecificationSubmission where
  content : String
deriving DecidableEq, Repr

instance : Wire SpecificationSubmission where
  encode s := .obj [("content", encode s.content)]
  decode? v := do
    let s ← v.slots? ["content"]
    return { content := ← s.required "content" }

/-- What is wrong with a body. -/
inductive Fault where
  /-- The text is no JSON. -/
  | malformed
  /-- The text is JSON of another shape. -/
  | misfit
deriving DecidableEq, Repr

/-! ### Finding the fault -/

/-- The fields of a record of texts: all names in their order, and those that must be given. -/
structure Form where
  names : List String
  required : List String

/-- What is asked of the body that holds such a record. -/
def Form.shape (f : Form) : Json.Shape := .flat f.names

/-- Where the reading of a record stands; `given` are the fields read so far. -/
inductive Reading where
  | start
  | firstKey
  | nextKey (given : List String)
  | colon (given : List String) (key : String)
  | value (given : List String) (key : String)
  /-- Inside the value of a member that is no field. -/
  | skipping (given : List String) (s : Json.Skim)
  | afterValue (given : List String)
  /-- In the array form, at the field with this number. -/
  | firstItem
  | nextItem (index : Nat)
  | afterItem (count : Nat)
  | done

namespace Reading

/-- The end of a record. -/
def finish (f : Form) (given : List String) : Except Fault Reading :=
  if f.required.all given.contains then .ok .done else .error .misfit

/-- A lexeme where the text of a field is expected. -/
def field (next : Reading) : Json.Lexeme → Except Fault Reading
  | .token (.str _) => .ok next
  | .token .null | .token (.bool _) | .token (.num _) | .token .openBracket | .token .openBrace =>
    .error .misfit
  | _ => .error .malformed

/-- A key; a field must not come twice. -/
def key (f : Form) (given : List String) (name : String) : Except Fault Reading :=
  if f.names.contains name && given.contains name then .error .misfit else .ok (.colon given name)

/-- A lexeme inside a value that is passed over. -/
def skip (given : List String) (s : Json.Skim) (t : Json.Lexeme) : Except Fault Reading :=
  match s.step t with
  | some (.complete []) => .ok (.afterValue given)
  | some s => .ok (.skipping given s)
  | none => .error .malformed

/-- One lexeme. -/
def step (f : Form) : Reading → Json.Lexeme → Except Fault Reading
  | .start, .token .openBrace => .ok .firstKey
  | .start, .token .openBracket => .ok .firstItem
  | .start, .token .null | .start, .token (.bool _) | .start, .token (.num _)
  | .start, .token (.str _) => .error .misfit
  | .firstKey, .token .closeBrace => finish f []
  | .firstKey, .token (.str name) => key f [] name
  | .nextKey given, .token (.str name) => key f given name
  | .colon given name, .token .colon => .ok (.value given name)
  | .value given name, t =>
    if f.names.contains name then field (.afterValue (name :: given)) t
    else skip given (.value []) t
  | .skipping given s, t => skip given s t
  | .afterValue given, .token .comma => .ok (.nextKey given)
  | .afterValue given, .token .closeBrace => finish f given
  | .firstItem, .token .closeBracket => finish f []
  | .firstItem, t => field (.afterItem 1) t
  | .nextItem index, t => field (.afterItem (index + 1)) t
  | .afterItem count, .token .closeBracket => finish f (f.names.take count)
  | .afterItem count, .token .comma =>
    if count < f.names.length then .ok (.nextItem count) else .error .malformed
  | _, _ => .error .malformed

/-- All lexemes of a text. -/
def run (f : Form) : Reading → List Json.Lexeme → Except Fault Reading
  | r, [] => .ok r
  | r, t :: ts =>
    match r.step f t with
    | .ok r => run f r ts
    | .error e => .error e

end Reading

/-- The fault of a text that shall hold a record. -/
def Fault.ofText? (f : Form) (text : String) : Option Fault :=
  let (lexemes, whole) := Json.Lexeme.scan text.toList
  match Reading.start.run f lexemes with
  | .error e => some e
  | .ok .done => if whole then none else some .malformed
  | .ok _ => some .malformed

/-- The fields of submitted source text. -/
def CodeSubmission.form : Form := ⟨["code", "language"], ["code"]⟩

/-- The fields of a submitted specification. -/
def SpecificationSubmission.form : Form := ⟨["content"], ["content"]⟩

/-- The record that a text holds. -/
def submitted {α : Type} [Wire α] (f : Form) (text : String) : Except Fault α :=
  match (Json.excerpt? f.shape text).bind Wire.decode? with
  | some record => .ok record
  | none => .error ((Fault.ofText? f text).getD .malformed)

end SecurityScan.Service
