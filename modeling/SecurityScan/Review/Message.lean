import SecurityScan.Json.Wire

namespace SecurityScan.Review

/-!
# Messages to and from a text generator

* `Role` and `Message` — one contribution to a conversation;
* `Request` — a conversation that asks for its next contribution;
* `StopReason`, `Usage` and `Completion` — the contribution, why it ended and what it cost.
-/

/-- Who speaks. -/
inductive Role where
  | system | user
deriving DecidableEq, Repr, Inhabited

namespace Role

/-- The word for a role. -/
def name : Role → String
  | .system => "system"
  | .user => "user"

/-- All roles. -/
def all : List Role := [.system, .user]

instance : Wire Role where
  encode r := .str r.name
  decode? := Wire.oneOf? name all

end Role

/-- One contribution to a conversation. -/
structure Message where
  role : Role
  content : String
deriving DecidableEq, Repr, Inhabited

instance : Wire Message where
  encode m := .obj [("role", encode m.role), ("content", encode m.content)]
  decode? v := do
    let s ← v.slots? ["role", "content"]
    return { role := ← s.required "role", content := ← s.required "content" }

/-- A conversation that asks for its next contribution. -/
structure Request where
  messages : List Message := []
  /-- The model that shall answer; the generator chooses if there is none. -/
  model : Option String := none
deriving DecidableEq, Repr, Inhabited

namespace Request

/-- Appends a message. -/
def withMessage (r : Request) (m : Message) : Request := { r with messages := r.messages ++ [m] }

/-- Appends an instruction. -/
def withSystem (r : Request) (text : String) : Request := r.withMessage ⟨.system, text⟩

/-- Appends a question. -/
def withUser (r : Request) (text : String) : Request := r.withMessage ⟨.user, text⟩

/-- Names the model that shall answer. -/
def withModel (r : Request) (model : String) : Request := { r with model := some model }

/-- A request without a model has no member for it. -/
instance : Wire Request where
  encode r := .obj (("messages", encode r.messages) ::
    (r.model.map fun m => ("model", encode m)).toList)
  decode? v := do
    let s ← v.slots? ["messages", "model"]
    return { messages := ← s.required "messages", model := ← s.optional "model" }

end Request

/-- Why a contribution ended. -/
inductive StopReason where
  | endTurn | maxTokens | contentFilter | other
deriving DecidableEq, Repr, Inhabited

namespace StopReason

/-- The word for a reason. -/
def name : StopReason → String
  | .endTurn => "end_turn"
  | .maxTokens => "max_tokens"
  | .contentFilter => "content_filter"
  | .other => "other"

/-- All reasons. -/
def all : List StopReason := [.endTurn, .maxTokens, .contentFilter, .other]

instance : Wire StopReason where
  encode r := .str r.name
  decode? := Wire.oneOf? name all

end StopReason

/-- What a contribution cost. -/
structure Usage where
  promptTokens : UInt32 := 0
  completionTokens : UInt32 := 0
  totalTokens : UInt32 := 0
deriving DecidableEq, Repr, Inhabited

instance : Wire Usage where
  encode u := .obj [
    ("prompt_tokens", encode u.promptTokens), ("completion_tokens", encode u.completionTokens),
    ("total_tokens", encode u.totalTokens)]
  decode? v := do
    let s ← v.slots? ["prompt_tokens", "completion_tokens", "total_tokens"]
    return {
      promptTokens := ← s.required "prompt_tokens"
      completionTokens := ← s.required "completion_tokens"
      totalTokens := ← s.required "total_tokens" }

/-- The contribution of a generator. -/
structure Completion where
  id : String
  /-- The model that has answered. -/
  model : String
  content : String
  stopReason : StopReason
  usage : Usage := {}
deriving DecidableEq, Repr, Inhabited

instance : Wire Completion where
  encode c := .obj [
    ("id", encode c.id), ("model", encode c.model), ("content", encode c.content),
    ("stop_reason", encode c.stopReason), ("usage", encode c.usage)]
  decode? v := do
    let s ← v.slots? ["id", "model", "content", "stop_reason", "usage"]
    return {
      id := ← s.required "id", model := ← s.required "model", content := ← s.required "content"
      stopReason := ← s.required "stop_reason", usage := ← s.withDefault "usage" {} }

end SecurityScan.Review
