import SecurityScan.Json.Excerpt
import SecurityScan.Review.Message

namespace SecurityScan.Review

/-!
# Answers of generators behind an address

* `Answer` — what the text of a successful reply holds: continuations to choose from;
* `Answer.shape` — what is asked of such a text, which may have members of all kinds besides;
* `Answer.completion` — the completion that an answer stands for: its first choice;
* `Gap` — what an answer may lack.
-/

/-- The message of a choice. -/
structure ChoiceMessage where
  role : String
  content : Option String
deriving DecidableEq, Repr

instance : Wire ChoiceMessage where
  encode m := .obj [("role", encode m.role), ("content", encode m.content)]
  decode? v := do
    let s ← v.slots? ["role", "content"]
    return { role := ← s.required "role", content := ← s.optional "content" }

/-- What is asked of the message of a choice. -/
def ChoiceMessage.shape : Json.Shape := .flat ["role", "content"]

/-- One of the continuations that an answer offers. -/
structure Choice where
  message : Option ChoiceMessage
  finishReason : Option String
deriving DecidableEq, Repr

instance : Wire Choice where
  encode c := .obj [("message", encode c.message), ("finish_reason", encode c.finishReason)]
  decode? v := do
    let s ← v.slots? ["message", "finish_reason"]
    return { message := ← s.optional "message", finishReason := ← s.optional "finish_reason" }

/-- What is asked of a choice. -/
def Choice.shape : Json.Shape :=
  .record [("message", ChoiceMessage.shape), ("finish_reason", .whole)]

/-- What the text of a successful reply holds. -/
structure Answer where
  id : Option String
  model : Option String
  choices : List Choice
  usage : Option Usage
deriving DecidableEq, Repr

instance : Wire Answer where
  encode a := .obj [
    ("id", encode a.id), ("model", encode a.model), ("choices", encode a.choices),
    ("usage", encode a.usage)]
  decode? v := do
    let s ← v.slots? ["id", "model", "choices", "usage"]
    return {
      id := ← s.optional "id", model := ← s.optional "model"
      choices := ← s.withDefault "choices" [], usage := ← s.optional "usage" }

/-- What is asked of the costs of an answer. -/
def Usage.shape : Json.Shape := .flat ["prompt_tokens", "completion_tokens", "total_tokens"]

/-- What is asked of an answer. -/
def Answer.shape : Json.Shape :=
  .record [("id", .whole), ("model", .whole), ("choices", .items Choice.shape),
    ("usage", Usage.shape)]

/-- What an answer may lack. -/
inductive Gap where
  | noChoices | noMessage
deriving DecidableEq, Repr

/-- The wording of a gap. -/
def Gap.message : Gap → String
  | .noChoices => "Response contained no choices"
  | .noMessage => "First choice carried no message"

/-- The reason for which a continuation ended, from the word for it. -/
def StopReason.ofFinish : Option String → StopReason
  | some "stop" => .endTurn
  | some "length" => .maxTokens
  | some "content_filter" => .contentFilter
  | _ => .other

/-- The completion that an answer stands for.  Later choices are not looked at. -/
def Answer.completion (defaultModel : String) (a : Answer) : Except Gap Completion :=
  match a.choices with
  | [] => .error .noChoices
  | choice :: _ =>
    match choice.message with
    | none => .error .noMessage
    | some m => .ok {
      id := a.id.getD ""
      model := a.model.getD defaultModel
      content := m.content.getD ""
      stopReason := .ofFinish choice.finishReason
      usage := a.usage.getD {} }

end SecurityScan.Review
