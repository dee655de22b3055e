import SecurityScan.Json.Token

namespace SecurityScan.Json

/-!
# Reading JSON values

A value is read by a machine that takes one token at a time and keeps the arrays and objects that
are still open.  Where a text is refused, the state reached tells what had been read by then.

* `Frame` and `Progress` — what is open, and what is expected next;
* `Progress.step` — one token;
* `Progress.read` — a whole text: the state after the last token taken, and whether all were;
* `Json.parse?` — the value of a text, its repeated keys left as they are written;
* `Json.load?` — the same with repeated keys settled.
-/

/-- An array or object that is still open, its parts in reverse order. -/
inductive Frame where
  | array (items : List Json)
  | object (members : Members) (key : String)
deriving Repr

/-- Where the reading of a text stands, below the frames that are open. -/
inductive Progress where
  /-- A value must follow. -/
  | value (open_ : List Frame)
  /-- An array has just been opened. -/
  | firstItem (open_ : List Frame)
  /-- An object has just been opened. -/
  | firstKey (open_ : List Frame)
  /-- A comma in an object; a key must follow. -/
  | nextKey (members : Members) (open_ : List Frame)
  /-- A key; its colon must follow. -/
  | afterKey (members : Members) (key : String) (open_ : List Frame)
  /-- A value is complete. -/
  | complete (v : Json) (open_ : List Frame)
deriving Repr

/-- At most so many arrays and objects may be open at once. -/
def maxOpen : Nat := 127

/-- A token where a value is expected. -/
def Progress.start (frames : List Frame) : Token → Option Progress
  | .null => some (.complete .null frames)
  | .bool b => some (.complete (.bool b) frames)
  | .num n => some (.complete (.num n) frames)
  | .str s => some (.complete (.str s) frames)
  | .openBracket => if frames.length < maxOpen then some (.firstItem frames) else none
  | .openBrace => if frames.length < maxOpen then some (.firstKey frames) else none
  | _ => none

/-- One token; none if it cannot stand there. -/
def Progress.step : Progress → Token → Option Progress
  | .value frames, t => start frames t
  | .firstItem frames, .closeBracket => some (.complete (.arr []) frames)
  | .firstItem frames, t => start (.array [] :: frames) t
  | .firstKey frames, .closeBrace => some (.complete (.obj []) frames)
  | .firstKey frames, .str key => some (.afterKey [] key frames)
  | .nextKey members frames, .str key => some (.afterKey members key frames)
  | .afterKey members key frames, .colon => some (.value (.object members key :: frames))
  | .complete v (.array items :: frames), .comma => some (.value (.array (v :: items) :: frames))
  | .complete v (.array items :: frames), .closeBracket =>
    some (.complete (.arr (v :: items).reverse) frames)
  | .complete v (.object members key :: frames), .comma =>
    some (.nextKey ((key, v) :: members) frames)
  | .complete v (.object members key :: frames), .closeBrace =>
    some (.complete (.obj ((key, v) :: members).reverse) frames)
  | _, _ => none

/-- Takes tokens until one is refused; tells whether all were taken. -/
def Progress.run (p : Progress) : List Token → Progress × Bool
  | [] => (p, true)
  | t :: ts => match p.step t with
    | some q => q.run ts
    | none => (p, false)

/-- Reads a text from its start; tells whether all of it was taken. -/
def Progress.read (cs : List Char) : Progress × Bool :=
  let (ts, whole) := Token.scan cs
  let (p, taken) := (Progress.value []).run ts
  (p, whole && taken)

/-- The value of a text. -/
def parse? (s : String) : Option Json :=
  match Progress.read s.toList with
  | (.complete v [], true) => some v
  | _ => none

/-- A text with a value is made of tokens, and these take the machine from its start to the value. -/
theorem exists_run_of_parse? {s : String} {v : Json} (h : parse? s = some v) :
    ∃ ts, Token.scan s.toList = (ts, true) ∧ (Progress.value []).run ts = (.complete v [], true) := by
  unfold parse? at h
  split at h
  · next w hread =>
    cases h
    rw [Progress.read] at hread
    dsimp only at hread
    obtain ⟨hlast, htaken⟩ := Prod.mk.inj hread
    rw [Bool.and_eq_true] at htaken
    exact ⟨_, Prod.ext rfl htaken.1, Prod.ext hlast htaken.2⟩
  · cases h

/-- The value of a text, in which a repeated key keeps its first position and its last value. -/
def load? (s : String) : Option Json := (parse? s).map merged

end SecurityScan.Json
