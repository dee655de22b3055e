import SecurityScan.Yaml.Node
import SecurityScan.Yaml.Token.Scanner
import SecurityScan.Yaml.Value

namespace SecurityScan.Yaml

/-!
# From nodes to values

Aliases are followed, tags are applied and plain scalars are read.

* `ofScalar` — the value of a scalar with its tag;
* `Expansion` — a computation that counts the aliases it follows;
* `Node.value` — the value of a node; nesting and the number of followed aliases are limited, so an
  alias inside its own anchor is an error;
* `Yaml.parse?` — the value of a text.
-/

/-- A tag of the standard vocabulary. -/
def standardTag (name : String) : String := "tag:yaml.org,2002:" ++ name

/-- The name of a tag of the document's own: one that starts with an exclamation mark. -/
def ownTag? : Option String → Option String
  | some tag => match tag.toList with
    | ['!'] => some "!"
    | '!' :: rest => some (String.ofList rest)
    | _ => none
  | none => none

/-- The value of a scalar.  A standard tag decides how the text is read; any other tag but an own one
    makes it a string; without a tag, or under an own one, a plain scalar stands for what its text
    says. -/
def ofScalar (tag : Option String) (plain : Bool) (s : String) : Option Yaml :=
  match tag, ownTag? tag with
  | some tag, none =>
    if tag = standardTag "bool" then (bool? s).map .bool
    else if tag = standardTag "int" then
      match (int? s.toList).filter fitsWord with
      | some i => some (.num (.int i))
      | none => none
    else if tag = standardTag "float" then (float? s.toList).map fun x => .num (.float x)
    else if tag = standardTag "null" then (if isNullWord s then some .null else none)
    else some (.str s)
  | _, _ => if plain then ofPlain s else some (.str s)

/-- A computation that counts followed aliases; none stands for an error. -/
abbrev Expansion := StateT Nat Option

/-- What aliases stand for, and how many may be followed. -/
structure AliasTable where
  targets : List (Nat × Node)
  limit : Nat

namespace Node

/-- The table of a document: a number stands for the last node that has it, and a hundred aliases
    may be followed for every mark of the document. -/
def aliasTable (root : Node) : AliasTable :=
  { targets := root.anchored.reverse, limit := root.size * 100 }

/-- Follows an alias to its node. -/
def follow (table : AliasTable) : Node → Expansion Node
  | .alias n => do
    let count := (← get) + 1
    set count
    if table.limit < count then failure
    match table.targets.lookup n with
    | some target => return target
    | none => failure
  | node => return node

/-- A value under the own tag of its node. -/
def wrap (tag : Option String) (v : Yaml) : Yaml :=
  match ownTag? tag with
  | some t => .tagged t v
  | none => v

/-- Reads the entries of a mapping one after the other; a key that is already there is an error. -/
def entries (value : Node → Expansion Yaml) :
    List (Node × Node) → List (Yaml × Yaml) → Expansion (List (Yaml × Yaml))
  | [], done => return done.reverse
  | (k, v) :: es, done => do
    let key ← value k
    if done.any fun e => e.1.same key then failure
    let v ← value v
    entries value es ((key, v) :: done)

/-- The value of a node with at most `room` collections inside one another. -/
def value (table : AliasTable) : (room : Nat) → Node → Expansion Yaml
  | 0, node => do
    match ← node.follow table with
    | .scalar _ tag plain text =>
      match ofScalar tag plain text with
      | some v => return wrap tag v
      | none => failure
    | _ => failure
  | room + 1, node => do
    match ← node.follow table with
    | .scalar _ tag plain text =>
      match ofScalar tag plain text with
      | some v => return wrap tag v
      | none => failure
    | .sequence _ tag items => return wrap tag (.seq (← items.mapM (value table room)))
    | .mapping _ tag es => return wrap tag (.map (← entries (value table room) es []))
    | .alias _ => failure

end Node

/-- The deepest nesting of collections. -/
def maxNesting : Nat := 128

/-- The value of a YAML text with at most one document; a text without a document is null. -/
def parse? (text : String) : Option Yaml := do
  let tokens ← Token.scan? text
  match ← Node.ofTokens? tokens with
  | none => return .null
  | some root => return (← (root.value root.aliasTable maxNesting).run 0).1

end SecurityScan.Yaml
