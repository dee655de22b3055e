import SecurityScan.Toml.Scalar
import SecurityScan.Toml.Table

namespace SecurityScan.Toml

/-!
# TOML documents

* `Frame` and `Progress` — the arrays and inline tables that are open, and what is expected next;
* `value?` — a value at the head of a text;
* `Draft` and `Draft.line?` — the tables so far, and one line more;
* `parse?` — the settings of a text.
-/

/-- An array or inline table that is still open. -/
inductive Frame where
  | array (items : List Setting)
  | table (entries : Entries) (key : List String)

/-- What is expected next, below the frames that are open. -/
inductive Progress where
  | value (frames : List Frame)
  /-- An item or the end of an array. -/
  | itemOrEnd (items : List Setting) (frames : List Frame)
  | key (entries : Entries) (frames : List Frame)
  /-- The first key or the end of an inline table. -/
  | keyOrEnd (frames : List Frame)
  | complete (v : Setting) (frames : List Frame)

/-- At most so many arrays and inline tables may be open at once. -/
def maxOpen : Nat := 80

/-- Reads the start of a value, or all of it. -/
def start? (frames : List Frame) : List Char → Option (Progress × List Char)
  | '[' :: rest => if frames.length < maxOpen then some (.itemOrEnd [] frames, rest) else none
  | '\x7b' :: rest => if frames.length < maxOpen then some (.keyOrEnd frames, rest) else none
  | cs => (scalar? cs).map fun p => (.complete p.1 frames, p.2)

/-- Reads a key and its equals sign. -/
def assignment? (cs : List Char) : Option (List String × List Char) :=
  match keyPath? cs with
  | some (path, '=' :: rest) => some (path, skipSpace rest)
  | _ => none

/-- Reads one piece of a value. -/
def Progress.step? : Progress → List Char → Option (Progress × List Char)
  | .value frames, cs => start? frames cs
  | .itemOrEnd items frames, cs =>
    match skipLines cs with
    | ']' :: rest => some (.complete (.list items.reverse) frames, rest)
    | rest => start? (.array items :: frames) rest
  | .key es frames, cs => (assignment? cs).map fun p => (.value (.table es p.1 :: frames), p.2)
  | .keyOrEnd frames, cs =>
    match skipSpace cs with
    | '\x7d' :: rest => some (.complete (.table []) frames, rest)
    | rest => (assignment? rest).map fun p => (.value (.table [] p.1 :: frames), p.2)
  | .complete v (.array items :: frames), cs =>
    match skipLines cs with
    | ',' :: rest => some (.itemOrEnd (v :: items) frames, rest)
    | ']' :: rest => some (.complete (.list (v :: items).reverse) frames, rest)
    | _ => none
  | .complete v (.table es path :: frames), cs => do
    let es ← es.assign? v path
    match skipSpace cs with
    | ',' :: rest => some (.key es frames, rest)
    | '\x7d' :: rest => some (.complete (.table (entriesToSettings es)) frames, rest)
    | _ => none
  | .complete _ [], _ => none

/-- Reads on until a value is complete. -/
def Progress.run? : Progress → List Char → Option (Setting × List Char)
  | .complete v [], cs => some (v, cs)
  | p, cs => do
    let (q, rest) ← p.step? cs
    if rest.length < cs.length then q.run? rest else none
termination_by _ cs => cs.length

/-- A value at the head of a text, and what follows it. -/
def value? (cs : List Char) : Option (Setting × List Char) := (Progress.value []).run? cs

/-! ### Lines -/

/-- The tables so far, and the path of the one that lines add to. -/
structure Draft where
  entries : Entries
  current : List String

/-- Reads a line and what ends it: a header, a key with its value, or nothing. -/
def Draft.line? (d : Draft) (cs : List Char) : Option (Draft × List Char) :=
  match skipSpace cs with
  | '[' :: '[' :: rest => do
    let (path, rest) ← keyPath? rest
    let rest ← Text.strip? [']', ']'] rest
    return (⟨← d.entries.append? path, path⟩, ← lineEnd? rest)
  | '[' :: rest => do
    let (path, rest) ← keyPath? rest
    let rest ← Text.strip? [']'] rest
    return (⟨← d.entries.open? path, path⟩, ← lineEnd? rest)
  | cs =>
    match lineEnd? cs with
    | some rest => some (d, rest)
    | none => do
      let (path, rest) ← assignment? cs
      let (v, rest) ← value? rest
      return (⟨← Entries.inside? (Entries.assign? v path) d.current d.entries, d.current⟩,
        ← lineEnd? rest)

/-- Reads lines to the end of the text. -/
def Draft.run? (d : Draft) (cs : List Char) : Option Draft :=
  if cs.isEmpty then some d
  else do
    let (d, rest) ← d.line? cs
    if rest.length < cs.length then d.run? rest else none
termination_by cs.length

/-- The settings of a text.  A byte order mark in front is passed over. -/
def parse? (text : String) : Option Settings :=
  let cs := match text.toList with
    | '\ufeff' :: rest => rest
    | cs => cs
  (Draft.run? ⟨[], []⟩ cs).map fun d => entriesToSettings d.entries

end SecurityScan.Toml
