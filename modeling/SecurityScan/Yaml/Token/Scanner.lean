import SecurityScan.Yaml.Token
import SecurityScan.Yaml.Token.Scalar
import SecurityScan.Yaml.Token.Tag

namespace SecurityScan.Yaml

/-!
# Scanning YAML text

Whether a node is the key of a mapping is known only at the colon behind it.  So a slot is kept
before every node that may turn out to be a key; it is filled at the colon, or it stays empty.

* `Slot` and `PendingKey` — such a place, and the node that may claim it;
* `Scanner` — the tokens so far, the open blocks and brackets, and the nodes that may be keys;
* `Scanner.next` — the next token;
* `Token.scan?` — all tokens of a text.
-/

/-- A token, or the place of a key that may still be found. -/
inductive Slot where
  | token (t : Token)
  | empty
  | key (opensMapping : Bool)
deriving Repr, Inhabited

/-- The tokens that a slot stands for in the end. -/
def Slot.tokens : Slot → List Token
  | .token t => [t]
  | .empty => []
  | .key true => [.blockMappingStart, .key]
  | .key false => [.key]

/-- A node that is a key if a colon follows it on its line. -/
structure PendingKey where
  slot : Nat
  /-- The node stands where only a key can stand. -/
  required : Bool
  index : Nat
  line : Nat
  column : Nat
deriving Repr

/-- The state of a scan. -/
structure Scanner where
  cursor : Cursor
  slots : Array Slot
  /-- The column of the innermost block; minus one outside all blocks. -/
  indent : Int
  /-- The columns of the enclosing blocks. -/
  outer : List Int
  /-- The node that may be a key, for every open bracket and for the text outside them. -/
  keys : List (Option PendingKey)
  /-- A key may start here. -/
  keyAllowed : Bool

namespace Scanner

/-- The start of a text. -/
def start (cs : List Char) : Scanner :=
  { cursor := .start cs, slots := #[], indent := -1, outer := [], keys := [none], keyAllowed := true }

/-- How many brackets are open. -/
def flowLevel (s : Scanner) : Nat := s.keys.length - 1

/-- Some bracket is open. -/
def inFlow (s : Scanner) : Bool := 0 < s.flowLevel

/-- Appends a token. -/
def push (s : Scanner) (t : Token) : Scanner := { s with slots := s.slots.push (.token t) }

/-- Moves to the start of the next token, over blanks, comments and line breaks.  A tab is a blank
    only where no key can start. -/
def skipBetween : Nat → Scanner → Scanner
  | 0, s => s
  | fuel + 1, s =>
    let c := if s.cursor.index = 0 && s.cursor.sees '\ufeff' then s.cursor.skip 1 else s.cursor
    let c := c.skipWhile fun x => x = ' ' || ((s.inFlow || !s.keyAllowed) && x = '\t')
    let c := c.skipComment
    if c.head?.any isBreak then
      skipBetween fuel { s with cursor := c.skipBreak, keyAllowed := s.keyAllowed || !s.inFlow }
    else { s with cursor := c }

/-- A node can be a key only if its colon follows on the same line within 1024 characters. -/
def PendingKey.isStale (k : PendingKey) (c : Cursor) : Bool :=
  k.line < c.line || k.index + 1024 < c.index

/-- Gives up the nodes that can no longer be keys; one that had to be a key is an error. -/
def dropStaleKeys (s : Scanner) : Option Scanner :=
  let stale (k : PendingKey) := PendingKey.isStale k s.cursor
  if s.keys.any (fun k => k.any fun k => stale k && k.required) then none
  else some { s with keys := s.keys.map (Option.filter fun k => !stale k) }

/-- Gives up the node that may be a key at this bracket level; one that had to be is an error. -/
def dropKey (s : Scanner) : Option Scanner :=
  match s.keys with
  | some k :: rest => if k.required then none else some { s with keys := none :: rest }
  | _ => some s

/-- Remembers the node that starts here as a possible key, if one is allowed here. -/
def saveKey (s : Scanner) : Option Scanner :=
  if s.keyAllowed then do
    let s ← s.dropKey
    let c := s.cursor
    let key : PendingKey :=
      { slot := s.slots.size, required := !s.inFlow && s.indent == (c.column : Int)
        index := c.index, line := c.line, column := c.column }
    return { s with slots := s.slots.push .empty, keys := some key :: s.keys.drop 1 }
  else some s

/-- Opens a block at a column right of the innermost one; tells whether it did. -/
def openBlock (s : Scanner) (column : Nat) : Scanner × Bool :=
  if !s.inFlow && s.indent < (column : Int) then
    ({ s with indent := column, outer := s.indent :: s.outer }, true)
  else (s, false)

/-- Opens a block whose first token is `t`. -/
def openBlockWith (s : Scanner) (t : Token) : Scanner :=
  let (s, opened) := s.openBlock s.cursor.column
  if opened then s.push t else s

/-- Ends the blocks that stand right of a column. -/
def closeBlocks (s : Scanner) (column : Int) : Scanner :=
  if s.inFlow then s
  else close s s.outer
where
  /-- Ends blocks from the innermost one outwards. -/
  close (s : Scanner) : List Int → Scanner
    | [] => s
    | parent :: rest =>
      if column < s.indent then close ({ s with indent := parent, outer := rest }.push .blockEnd) rest
      else s

/-- Moves on by `n` characters and appends a token. -/
def punctuate (s : Scanner) (n : Nat) (t : Token) : Scanner :=
  { s with cursor := s.cursor.skip n }.push t

/-! ### Single tokens -/

/-- The line that starts or ends a document. -/
def documentMarker (s : Scanner) (t : Token) : Option Scanner := do
  let s ← (s.closeBlocks (-1)).dropKey
  return { s with keyAllowed := false }.punctuate 3 t

/-- A directive, with the comment behind it. -/
def directive (s : Scanner) : Option Scanner := do
  let s ← (s.closeBlocks (-1)).dropKey
  let (name, c) := (s.cursor.skip 1).take isNameChar
  if name.isEmpty || !endsWord c.head? then none
  let (t, c) ←
    if name = "YAML".toList then do
      let (major, minor, c) ← readVersion c
      pure (Token.version major minor, c)
    else if name = "TAG".toList then do
      let (handle, lead, c) ← readShorthand c
      pure (Token.tagShorthand handle lead, c)
    else none
  let c := (c.skipWhile isBlank).skipComment
  if !c.atLineEnd then none
  return { s with cursor := c.skipBreak, keyAllowed := false }.push t

/-- An opening bracket or brace. -/
def openFlow (s : Scanner) (t : Token) : Option Scanner := do
  let s ← s.saveKey
  return { s with keys := none :: s.keys, keyAllowed := true }.punctuate 1 t

/-- A closing bracket or brace. -/
def closeFlow (s : Scanner) (t : Token) : Option Scanner := do
  let s ← s.dropKey
  let keys := if s.inFlow then s.keys.drop 1 else s.keys
  return { s with keys := keys, keyAllowed := false }.punctuate 1 t

/-- A comma between brackets. -/
def flowEntry (s : Scanner) : Option Scanner := do
  let s ← s.dropKey
  return { s with keyAllowed := true }.punctuate 1 .flowEntry

/-- The dash of a sequence. -/
def blockEntry (s : Scanner) : Option Scanner := do
  if !s.inFlow && !s.keyAllowed then none
  let s ← (s.openBlockWith .blockSequenceStart).dropKey
  return { s with keyAllowed := true }.punctuate 1 .blockEntry

/-- The question mark of a key that is not on one line with its value. -/
def explicitKey (s : Scanner) : Option Scanner := do
  if !s.inFlow && !s.keyAllowed then none
  let s ← (s.openBlockWith .blockMappingStart).dropKey
  return { s with keyAllowed := !s.inFlow }.punctuate 1 .key

/-- The colon before a value: it makes a key of the node that waits for it, if there is one. -/
def mappingValue (s : Scanner) : Option Scanner :=
  match s.keys with
  | some k :: rest =>
    let (s, opened) := s.openBlock k.column
    some ({ s with
      slots := s.slots.setIfInBounds k.slot (.key opened)
      keys := none :: rest
      keyAllowed := false }.punctuate 1 .value)
  | _ =>
    if !s.inFlow && !s.keyAllowed then none
    else
      let s := s.openBlockWith .blockMappingStart
      some ({ s with keyAllowed := !s.inFlow }.punctuate 1 .value)

/-- An anchor or an alias: its name must be followed by a blank or an indicator. -/
def nodeName (s : Scanner) (t : String → Token) : Option Scanner := do
  let s ← s.saveKey
  let (name, c) := (s.cursor.skip 1).take isNameChar
  let ends := endsWord c.head? || c.head?.any fun x => "?:,]\x7d%@`".toList.contains x
  if name.isEmpty || !ends then none
  return { s with cursor := c, keyAllowed := false }.push (t (String.ofList name))

/-- A tag. -/
def tag (s : Scanner) : Option Scanner := do
  let s ← s.saveKey
  let (handle, suffix, c) ← readTag s.inFlow s.cursor
  return { s with cursor := c, keyAllowed := false }.push (.tag handle suffix)

/-- A block of lines: a key may follow it, but it is none. -/
def blockScalar (s : Scanner) (literal : Bool) : Option Scanner := do
  let s ← s.dropKey
  let (text, c) ← readBlock literal s.indent s.cursor
  return { s with cursor := c, keyAllowed := true }.push (.scalar false (String.ofList text))

/-- A quoted scalar. -/
def quotedScalar (s : Scanner) (single : Bool) : Option Scanner := do
  let s ← s.saveKey
  let (text, c) ← readQuoted single s.cursor
  return { s with cursor := c, keyAllowed := false }.push (.scalar false (String.ofList text))

/-- A plain scalar: a key may follow it if line breaks do. -/
def plainScalar (s : Scanner) : Option Scanner := do
  let s ← s.saveKey
  let (text, c, broken) ← readPlain s.inFlow (s.indent + 1) s.cursor
  return { s with cursor := c, keyAllowed := broken }.push (.scalar true (String.ofList text))

/-! ### The scan -/

/-- A plain scalar can start here: it does not start with an indicator, unless a dash, or outside
    brackets a question mark or a colon, is followed by something that makes it text. -/
def startsPlain (s : Scanner) (x : Char) : Bool :=
  let next := s.cursor.at? 1
  let indicator := "-?:,[]\x7b\x7d#&*!|>'\"%@`".toList.contains x
  (!isBlank x && !isBreak x && !indicator) ||
  (x = '-' && !next.any isBlank) ||
  (!s.inFlow && (x = '?' || x = ':') && !endsWord next)

/-- The token that starts at the cursor with the character `x`. -/
def nodeOrIndicator (s : Scanner) (x : Char) : Option Scanner :=
  let c := s.cursor
  let word := endsWord (c.at? 1)
  if c.column = 0 && x = '%' then s.directive
  else if c.atMarker '-' then s.documentMarker .documentStart
  else if c.atMarker '.' then s.documentMarker .documentEnd
  else if x = '[' then s.openFlow .flowSequenceStart
  else if x = '\x7b' then s.openFlow .flowMappingStart
  else if x = ']' then s.closeFlow .flowSequenceEnd
  else if x = '\x7d' then s.closeFlow .flowMappingEnd
  else if x = ',' then s.flowEntry
  else if x = '-' && word then s.blockEntry
  else if x = '?' && (s.inFlow || word) then s.explicitKey
  else if x = ':' && (s.inFlow || word) then s.mappingValue
  else if x = '*' then s.nodeName .alias
  else if x = '&' then s.nodeName .anchor
  else if x = '!' then s.tag
  else if x = '|' && !s.inFlow then s.blockScalar true
  else if x = '>' && !s.inFlow then s.blockScalar false
  else if x = '\'' then s.quotedScalar true
  else if x = '"' then s.quotedScalar false
  else if s.startsPlain x then s.plainScalar
  else none

/-- Scans to the end of the text.  Every token takes a character, so the number of characters
    bounds the number of steps. -/
def run : Nat → Scanner → Option Scanner
  | 0, _ => none
  | fuel + 1, s => do
    let s ← (s.skipBetween (s.cursor.rest.length + 1)).dropStaleKeys
    let s := s.closeBlocks s.cursor.column
    match s.cursor.head? with
    | none => (s.closeBlocks (-1)).dropKey
    | some x => run fuel (← s.nodeOrIndicator x)

end Scanner

/-- The tokens of a text; none if it breaks a rule of the syntax. -/
def Token.scan? (text : String) : Option (List Token) := do
  let cs := text.toList
  if !cs.all isReadable then none
  let s ← (Scanner.start cs).run (cs.length + 1)
  return s.slots.toList.flatMap Slot.tokens

end SecurityScan.Yaml
