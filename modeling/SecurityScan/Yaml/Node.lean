import SecurityScan.Yaml.Token

namespace SecurityScan.Yaml

/-!
# Nodes of a YAML document

The tree of a document before its aliases are followed.

* `Node` — a scalar, a sequence, a mapping or an alias, with tags in full;
* `Node.size` — how many marks the node takes in the document, by which following is limited;
* `Anchors` — the numbers that anchors and aliases meet in;
* `Node.ofTokens?` — the single document of a text; an empty text has no node.
-/

/-- A node; `anchor` and the target of an alias are numbers handed out by `Anchors`. -/
inductive Node where
  | scalar (anchor : Option Nat) (tag : Option String) (plain : Bool) (text : String)
  | sequence (anchor : Option Nat) (tag : Option String) (items : List Node)
  | mapping (anchor : Option Nat) (tag : Option String) (entries : List (Node × Node))
  | alias (target : Nat)
deriving Repr, Inhabited

namespace Node

/-- The scalar that stands where nothing is written. -/
def blank (anchor : Option Nat) (tag : Option String) : Node := .scalar anchor tag true ""

mutual
/-- One mark for a scalar or an alias, two for the ends of a collection. -/
def size : Node → Nat
  | .scalar .. => 1
  | .alias _ => 1
  | .sequence _ _ items => 2 + sizeItems items
  | .mapping _ _ entries => 2 + sizeEntries entries
/-- The marks of the items. -/
def sizeItems : List Node → Nat
  | [] => 0
  | n :: ns => size n + sizeItems ns
/-- The marks of the keys and values. -/
def sizeEntries : List (Node × Node) → Nat
  | [] => 0
  | (k, v) :: es => size k + size v + sizeEntries es
end

mutual
/-- The anchored nodes inside a node and the node itself, in the order of the text. -/
def anchored : Node → List (Nat × Node)
  | .scalar a t p s => (a.map (·, Node.scalar a t p s)).toList
  | .sequence a t items => (a.map (·, Node.sequence a t items)).toList ++ anchoredItems items
  | .mapping a t entries => (a.map (·, Node.mapping a t entries)).toList ++ anchoredEntries entries
  | .alias _ => []
/-- The anchored nodes inside items. -/
def anchoredItems : List Node → List (Nat × Node)
  | [] => []
  | n :: ns => anchored n ++ anchoredItems ns
/-- The anchored nodes inside keys and values. -/
def anchoredEntries : List (Node × Node) → List (Nat × Node)
  | [] => []
  | (k, v) :: es => anchored k ++ anchored v ++ anchoredEntries es
end

end Node

/-! ### Anchors -/

/-- The anchors met so far, the latest first. -/
abbrev Anchors := List (String × Nat)

/-- Numbers an anchor by the count of different names before it; a name that comes again takes a new
    number, which the next new name then shares. -/
def Anchors.add (anchors : Anchors) (name : String) : Nat × Anchors :=
  let n := (anchors.map (·.1)).eraseDups.length
  (n, (name, n) :: anchors)

/-- The number that a name stands for now. -/
def Anchors.find? (anchors : Anchors) (name : String) : Option Nat := anchors.lookup name

/-! ### Reading -/

/-- What a reader of nodes carries along. -/
structure Reading where
  tokens : List Token
  anchors : Anchors
  /-- What the handles of tags stand for. -/
  handles : List (String × String)

/-- A reader of nodes; none stands for a breach of the grammar. -/
abbrev Reader := StateT Reading Option

namespace Reader

/-- The next token, left where it is. -/
def peek : Reader (Option Token) := return (← get).tokens.head?

/-- Passes over the next token. -/
def skip : Reader Unit := modify fun r => { r with tokens := r.tokens.tail }

/-- The next token is one of a list, or the text has ended. -/
def atEnd (ts : List Token) : Reader Bool :=
  return (← peek).all fun t => ts.contains t

/-- The full tag of a handle and a suffix. -/
def fullTag (handle suffix : String) : Reader String :=
  if handle.isEmpty then return suffix
  else do
    let some lead := (← get).handles.lookup handle | failure
    return lead ++ suffix

/-- An anchor and a tag before a node, in either order, each at most once. -/
def properties : Reader (Option Nat × Option String) := do
  let anchor : Reader (Option Nat) := do
    match ← peek with
    | some (.anchor name) =>
      let r ← get
      let (n, anchors) := r.anchors.add name
      set { r with tokens := r.tokens.tail, anchors }
      return some n
    | _ => return none
  let tag : Reader (Option String) := do
    match ← peek with
    | some (.tag handle suffix) =>
      skip
      return some (← fullTag handle suffix)
    | _ => return none
  match ← anchor with
  | some n => return (some n, ← tag)
  | none =>
    match ← tag with
    | some t => return (← anchor, some t)
    | none => return (none, none)

/-- Where a node stands decides which collections can start it. -/
inductive Place where
  /-- Between brackets. -/
  | flow
  /-- In a block. -/
  | block
  /-- In a block mapping, where dashes at the mapping's column are a sequence too. -/
  | blockMapping
deriving DecidableEq

mutual
/-- A node; the fuel bounds the depth of the calls by the number of tokens. -/
def node (place : Place) : Nat → Reader Node
  | 0 => failure
  | fuel + 1 => do
    match ← peek with
    | some (.alias name) =>
      skip
      let some n := (← get).anchors.find? name | failure
      return .alias n
    | _ =>
      let (anchor, tag) ← properties
      match ← peek with
      | some .blockEntry =>
        if place = .blockMapping then
          return .sequence anchor tag (← indentlessItems fuel)
        else if anchor.isSome || tag.isSome then return .blank anchor tag
        else failure
      | some (.scalar plain text) => skip; return .scalar anchor tag plain text
      | some .flowSequenceStart => skip; return .sequence anchor tag (← flowItems true fuel)
      | some .flowMappingStart => skip; return .mapping anchor tag (← flowEntries true fuel)
      | some .blockSequenceStart =>
        if place = .flow then
          if anchor.isSome || tag.isSome then return .blank anchor tag else failure
        else skip; return .sequence anchor tag (← blockItems fuel)
      | some .blockMappingStart =>
        if place = .flow then
          if anchor.isSome || tag.isSome then return .blank anchor tag else failure
        else skip; return .mapping anchor tag (← blockEntries fuel)
      | _ => if anchor.isSome || tag.isSome then return .blank anchor tag else failure

/-- A node, or the blank scalar if one of the given tokens follows. -/
def nodeUnless (place : Place) (ends : List Token) : Nat → Reader Node
  | 0 => failure
  | fuel + 1 => do
    match ← peek with
    | none => failure
    | some t => if ends.contains t then return .blank none none else node place fuel

/-- The items of a block sequence. -/
def blockItems : Nat → Reader (List Node)
  | 0 => failure
  | fuel + 1 => do
    match ← peek with
    | some .blockEntry =>
      skip
      let item ← nodeUnless .block [.blockEntry, .blockEnd] fuel
      return item :: (← blockItems fuel)
    | some .blockEnd => skip; return []
    | _ => failure

/-- The items of a sequence that is not indented below its key: it ends at the first token that is
    no dash. -/
def indentlessItems : Nat → Reader (List Node)
  | 0 => failure
  | fuel + 1 => do
    match ← peek with
    | some .blockEntry =>
      skip
      let item ← nodeUnless .block [.blockEntry, .key, .value, .blockEnd] fuel
      return item :: (← indentlessItems fuel)
    | _ => return []

/-- The entries of a block mapping; each starts with a key, if an empty one. -/
def blockEntries : Nat → Reader (List (Node × Node))
  | 0 => failure
  | fuel + 1 => do
    match ← peek with
    | some .key =>
      skip
      let k ← nodeUnless .blockMapping [.key, .value, .blockEnd] fuel
      let v ← blockValue fuel
      return (k, v) :: (← blockEntries fuel)
    | some .blockEnd => skip; return []
    | _ => failure

/-- The value of an entry in a block mapping. -/
def blockValue : Nat → Reader Node
  | 0 => failure
  | fuel + 1 => do
    match ← peek with
    | some .value =>
      skip
      nodeUnless .blockMapping [.key, .value, .blockEnd] fuel
    | _ => return .blank none none

/-- The items of a sequence in brackets.  A key in it is a mapping of one entry. -/
def flowItems (first : Bool) : Nat → Reader (List Node)
  | 0 => failure
  | fuel + 1 => do
    if (← peek) == some .flowSequenceEnd then
      skip
      return []
    if !first then
      if (← peek) == some .flowEntry then skip else failure
    match ← peek with
    | some .flowSequenceEnd => skip; return []
    | some .key =>
      skip
      let k ← pairKey fuel
      let v ← flowValue [.flowEntry, .flowSequenceEnd] fuel
      return .mapping none none [(k, v)] :: (← flowItems false fuel)
    | _ =>
      let item ← node .flow fuel
      return item :: (← flowItems false fuel)

/-- The key of a mapping of one entry.  Where it is missing, the token in its place is lost. -/
def pairKey : Nat → Reader Node
  | 0 => failure
  | fuel + 1 => do
    if ← atEnd [.value, .flowEntry, .flowSequenceEnd] then
      skip
      return .blank none none
    else node .flow fuel

/-- The value of an entry between brackets. -/
def flowValue (ends : List Token) : Nat → Reader Node
  | 0 => failure
  | fuel + 1 => do
    match ← peek with
    | some .value =>
      skip
      nodeUnless .flow ends fuel
    | _ => return .blank none none

/-- The entries of a mapping in braces; a node that is no key has the blank value. -/
def flowEntries (first : Bool) : Nat → Reader (List (Node × Node))
  | 0 => failure
  | fuel + 1 => do
    if (← peek) == some .flowMappingEnd then
      skip
      return []
    if !first then
      if (← peek) == some .flowEntry then skip else failure
    match ← peek with
    | some .flowMappingEnd => skip; return []
    | some .key =>
      skip
      let k ← nodeUnless .flow [.value, .flowEntry, .flowMappingEnd] fuel
      let v ← flowValue [.flowEntry, .flowMappingEnd] fuel
      return (k, v) :: (← flowEntries false fuel)
    | _ =>
      let k ← node .flow fuel
      return (k, .blank none none) :: (← flowEntries false fuel)
end

/-- The handles that every document knows. -/
def standardHandles : List (String × String) := [("!", "!"), ("!!", "tag:yaml.org,2002:")]

/-- The directives of a document: at most one version, which must be 1.1 or 1.2, and no handle
    twice.  Tells whether there were any. -/
def directives : Nat → (version : Bool) → List (String × String) →
    Reader (Bool × List (String × String))
  | 0, _, _ => failure
  | fuel + 1, version, handles => do
    match ← peek with
    | some (.version major minor) =>
      if version || major ≠ 1 || (minor ≠ 1 && minor ≠ 2) then failure
      skip
      directives fuel true handles
    | some (.tagShorthand handle lead) =>
      if (handles.lookup handle).isSome then failure
      skip
      directives fuel version ((handle, lead) :: handles)
    | _ => return (version || !handles.isEmpty, handles)

/-- The single document of a text. -/
def document (fuel : Nat) : Reader (Option Node) := do
  match ← peek with
  | none => return none
  | _ =>
    let (any, handles) ← directives fuel false []
    modify fun r => { r with handles := handles ++ standardHandles }
    let explicit := (← peek) == some .documentStart
    if explicit then skip
    if any && !explicit then failure
    let empty ← match ← peek with
      | none => pure explicit
      | some .documentStart | some .documentEnd => pure explicit
      | some (.version ..) | some (.tagShorthand ..) => pure explicit
      | _ => pure false
    let root ← if empty then pure (.blank none none) else node .block fuel
    let ends := (← get).tokens.dropWhile (· == .documentEnd)
    if ends.isEmpty then return some root else failure

end Reader

/-- The single document of the tokens of a text; the outer level tells a breach of the grammar, the
    inner one a text without a document. -/
def Node.ofTokens? (ts : List Token) : Option (Option Node) :=
  ((Reader.document (4 * ts.length + 4)).run ⟨ts, [], []⟩).map (·.1)

end SecurityScan.Yaml
