import SecurityScan.Json.Reader
import SecurityScan.Json.Skim

namespace SecurityScan.Json

/-!
# Reading what is asked for

A record is read from text without the members that it does not know: these are only passed over.

* `Shape` — what is asked of a value;
* `Shape.within` — what is asked of the value that stands in some open frames;
* `Excerpt` — where the reading stands: in what is asked for, or inside a value that is not;
* `Excerpt.step` and `Excerpt.run` — one lexeme, and any number of them;
* `excerpt?` — the value of a text as far as it is asked for.
-/

/-- What is asked of a value. -/
inductive Shape where
  /-- All of it. -/
  | whole
  /-- The same of each item. -/
  | items (each : Shape)
  /-- The fields of a record: members of an object, or items of an array in the same order. -/
  | record (fields : List (String × Shape))

namespace Shape

/-- A record whose fields are asked for as a whole. -/
def flat (names : List String) : Shape := .record (names.map (·, .whole))

/-- The member with this key is asked for. -/
def asks : Shape → String → Bool
  | .record fields, key => fields.any (·.1 == key)
  | _, _ => true

/-- What is asked of the member with this key. -/
def member : Shape → String → Shape
  | .record fields, key => (fields.lookup key).getD .whole
  | _, _ => .whole

/-- What is asked of the item at this place. -/
def item : Shape → Nat → Shape
  | .record fields, i => (fields[i]?.map (·.2)).getD .whole
  | .items each, _ => each
  | .whole, _ => .whole

/-- What is asked of the value that stands next in a frame. -/
def part (s : Shape) : Frame → Shape
  | .array vs => s.item vs.length
  | .object _ key => s.member key

/-- What is asked of the value that stands next in open frames, the innermost first. -/
def within (s : Shape) (open_ : List Frame) : Shape := open_.foldr (fun f s => s.part f) s

/-- The value that must follow is that of a member that is not asked for. -/
def passes (s : Shape) : Progress → Bool
  | .value (.object _ key :: open_) => !(s.within open_).asks key
  | _ => false

end Shape

/-- Where the reading of what is asked for stands. -/
inductive Excerpt where
  /-- In what is asked for. -/
  | reading (p : Progress)
  /-- Inside a value that is not asked for, which follows on `p`. -/
  | passing (p : Progress) (s : Skim)

namespace Excerpt

/-- Where the reading stands with a value passed over as far as `s`.  Once the value is complete, it
    is read as null. -/
def settle (p : Progress) : Skim → Option Excerpt
  | .complete [] => (p.step .null).map .reading
  | s => some (.passing p s)

/-- One lexeme; none if it cannot stand there.  In what is asked for it must be a token. -/
def step (shape : Shape) : Excerpt → Lexeme → Option Excerpt
  | .passing p s, t => (s.step t).bind (settle p)
  | .reading p, t =>
    if shape.passes p then ((Skim.value []).step t).bind (settle p)
    else match t with
      | .token t => (p.step t).map .reading
      | _ => none

/-- Takes lexemes as long as none is refused. -/
def run (shape : Shape) : Excerpt → List Lexeme → Option Excerpt
  | e, [] => some e
  | e, t :: ts => (e.step shape t).bind fun e => run shape e ts

end Excerpt

/-- The value of a text as far as it is asked for, with null for the members that are not. -/
def excerpt? (shape : Shape) (text : String) : Option Json :=
  let (ts, whole) := Lexeme.scan text.toList
  match (Excerpt.reading (.value [])).run shape ts with
  | some (.reading (.complete v [])) => if whole then some v else none
  | _ => none

end SecurityScan.Json
