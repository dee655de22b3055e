import SecurityScan.Specification.Model.Table
import SecurityScan.Specification.Reference
import SecurityScan.Url.Basic

namespace SecurityScan.Specification.Model

/-!
# Checking a document against the model

* `conforms` — a value has a shape;
* `isSpecification` — a document has the shape of a specification.
-/

/-- A scalar of a shape that needs no look inside. -/
def Shape.admitsScalar : Shape → Json → Bool
  | .any, _ => true
  | .bool, .bool _ => true
  | .text, .str _ => true
  | .number, .num _ => true
  | .word, .num (.int i) => 0 ≤ i && i < Int.pow 2 64
  | .url, .str s => (Url.parse? s).isSome
  | .oneOf words, .str s => words.contains s
  | .oneOrMore words, .str s => words.contains s
  | .oneOrMore words, .arr vs => vs.all fun v => match v with
    | .str s => words.contains s
    | _ => false
  | .orNull _, .null => true
  | .orNull s, v => s.admitsScalar v
  | .orRef s, v => s.admitsScalar v
  | .orBool _, .bool _ => true
  | .orBool s, v => s.admitsScalar v
  | _, _ => false

/-- The shape of the items, if the shape admits lists. -/
def Shape.item? : Shape → Option Shape
  | .list s => some s
  | .orNull s | .orRef s | .orBool s => s.item?
  | _ => none

/-- A shape for members: the shape that each key asks for, and the keys that must be there. -/
structure MemberShape where
  of : String → Option Shape
  required : List String

/-- The members of an object of the model. -/
def Kind.members (k : Kind) : MemberShape where
  of key := (k.fields.find? fun f => f.name == key).map (·.shape)
  required := (k.fields.filter (·.required)).map (·.name)

/-- The kind of an object whose family is known: schemes name theirs, and a link has an operation
    by reference or by name. -/
def Family.kind? (f : Family) (ms : Members) : Option Kind :=
  match f with
  | .securityScheme =>
    match ms.get? "type" with
    | some (.str "apiKey") => some .apiKeyScheme
    | some (.str "http") => some .httpScheme
    | some (.str "oauth2") => some .oauth2Scheme
    | some (.str "openIdConnect") => some .openIdScheme
    | some (.str "mutualTLS") => some .mutualTlsScheme
    | _ => none
  | .link =>
    match ms.get? "operationRef" with
    | some (.str _) => some .linkByReference
    | _ => some .linkById

/-- The shape of the members, if the shape admits objects. -/
def Shape.members? : Shape → Members → Option MemberShape
  | .any, _ => some ⟨fun _ => none, []⟩
  | .dict s, _ => some ⟨fun _ => some s, []⟩
  | .object k, _ => some k.members
  | .family f, ms => (f.kind? ms).map Kind.members
  | .orRef s, ms => if (refOf? ms).isSome then some ⟨fun _ => none, []⟩ else s.members? ms
  | .orNull s, ms | .orBool s, ms => s.members? ms
  | _, _ => none

mutual
/-- A value has a shape. -/
def conforms (s : Shape) : Json → Bool
  | .arr vs => match s.item? with
    | some item => conformItems item vs
    | none => s.admitsScalar (.arr vs)
  | .obj ms => match s.members? ms with
    | some shape => shape.required.all (Members.keys ms).contains && conformMembers shape.of ms
    | none => false
  | v => s.admitsScalar v
/-- All items have a shape. -/
def conformItems (s : Shape) : List Json → Bool
  | [] => true
  | v :: vs => conforms s v && conformItems s vs
/-- Every member has the shape its key asks for. -/
def conformMembers (of : String → Option Shape) : List (String × Json) → Bool
  | [] => true
  | (k, v) :: ms => (match of k with
      | some s => conforms s v
      | none => true) && conformMembers of ms
end

/-- A document has the shape of a specification. -/
def isSpecification (doc : Json) : Bool := conforms (.object .spec) doc

end SecurityScan.Specification.Model
