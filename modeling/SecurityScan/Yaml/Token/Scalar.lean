import SecurityScan.Yaml.Cursor
import SecurityScan.Decimal.Reading

namespace SecurityScan.Yaml

open Decimal

/-!
# Scalars in YAML text

The three ways to write a text: plain, between quotes, and as a block of lines.  Each reader takes
the cursor at the scalar and gives its text and the cursor behind it.

* `readQuoted` — single or double quotes; line breaks fold, and double quotes know escapes;
* `readPlain` — no quotes; ends at a comment, at a mapping value and, inside brackets, at an
  indicator;
* `readBlock` — literal or folded lines under a common indentation.
-/

/-! ### Quoted scalars -/

/-- The character of an escape of one letter between double quotes. -/
def letterEscape : Char → Option Char
  | '0' => some '\x00'
  | 'a' => some '\x07'
  | 'b' => some '\x08'
  | 't' => some '\t'
  | '\t' => some '\t'
  | 'n' => some '\n'
  | 'v' => some '\x0b'
  | 'f' => some '\x0c'
  | 'r' => some '\r'
  | 'e' => some '\x1b'
  | ' ' => some ' '
  | '"' => some '"'
  | '/' => some '/'
  | '\\' => some '\\'
  | 'N' => some '\u0085'
  | '_' => some '\u00a0'
  | 'L' => some '\u2028'
  | 'P' => some '\u2029'
  | _ => none

/-- How many hexadecimal digits follow an escape letter. -/
def escapeWidth : Char → Option Nat
  | 'x' => some 2
  | 'u' => some 4
  | 'U' => some 8
  | _ => none

/-- An escape between double quotes, the cursor at its backslash. -/
def readEscape (c : Cursor) : Option (Char × Cursor) := do
  let letter ← c.at? 1
  match escapeWidth letter with
  | some width =>
    let ds := (c.rest.drop 2).take width
    if ds.length = width ∧ ds.all (isDigitOf 16) then
      let n := valueIn 16 ds
      if n.isValidChar then some (Char.ofNat n, c.skip (2 + width)) else none
    else none
  | none => (letterEscape letter).map (·, c.skip 2)

/-- The characters of a quoted scalar up to a blank, a line break or the closing quote.  The last
    component tells that an escaped line break ended them. -/
def readQuotedRun (single : Bool) : Nat → List Char → Cursor → Option (List Char × Cursor × Bool)
  | 0, acc, c => some (acc, c, false)
  | fuel + 1, acc, c =>
    match c.head? with
    | none => some (acc, c, false)
    | some x =>
      if isBlank x || isBreak x then some (acc, c, false)
      else if single then
        if x = '\'' then
          if c.at? 1 = some '\'' then readQuotedRun single fuel (acc ++ ['\'']) (c.skip 2)
          else some (acc, c, false)
        else readQuotedRun single fuel (acc ++ [x]) (c.skip 1)
      else if x = '"' then some (acc, c, false)
      else if x = '\\' then
        if (c.at? 1).any isBreak then some (acc, (c.skip 1).skipBreak, true)
        else match readEscape c with
          | some (y, next) => readQuotedRun single fuel (acc ++ [y]) next
          | none => none
      else readQuotedRun single fuel (acc ++ [x]) (c.skip 1)

/-- Runs and the gaps between them, up to the closing quote. -/
def readQuotedFrom (single : Bool) : Nat → List Char → Cursor → Option (List Char × Cursor)
  | 0, _, _ => none
  | fuel + 1, acc, c =>
    if c.atDocumentMarker || c.rest.isEmpty then none
    else do
      let (run, next, escaped) ← readQuotedRun single c.rest.length [] c
      if next.sees (if single then '\'' else '"') then
        return (acc ++ run, next.skip 1)
      let (gap, next) ← next.gap none (if escaped then .breaks [] [] else .spaces [])
      readQuotedFrom single fuel (acc ++ run ++ gap.text) next

/-- A quoted scalar, the cursor at its opening quote. -/
def readQuoted (single : Bool) (c : Cursor) : Option (List Char × Cursor) :=
  readQuotedFrom single (c.rest.length + 1) [] (c.skip 1)

/-! ### Plain scalars -/

/-- The indicators that end a plain scalar between brackets. -/
def isFlowIndicator (c : Char) : Bool :=
  c = ',' || c = '[' || c = ']' || c = '\x7b' || c = '\x7d'

/-- The characters of a plain scalar up to a blank, a line break or an indicator.  Between brackets
    a colon right before an indicator is an error. -/
def readPlainRun (inFlow : Bool) : Nat → List Char → Cursor → Option (List Char × Cursor)
  | 0, acc, c => some (acc, c)
  | fuel + 1, acc, c =>
    match c.head? with
    | none => some (acc, c)
    | some x =>
      if isBlank x || isBreak x then some (acc, c)
      else if inFlow && x = ':' && (c.at? 1).any (fun y => isFlowIndicator y || y = '?') then none
      else if x = ':' && endsWord (c.at? 1) then some (acc, c)
      else if inFlow && isFlowIndicator x then some (acc, c)
      else readPlainRun inFlow fuel (acc ++ [x]) (c.skip 1)

/-- Runs and the gaps between them.  The last component tells that line breaks follow the scalar. -/
def readPlainFrom (inFlow : Bool) (limit : Int) :
    Nat → List Char → Gap → Cursor → Option (List Char × Cursor × Bool)
  | 0, acc, gap, c => some (acc, c, gap.isBroken)
  | fuel + 1, acc, gap, c =>
    if c.atDocumentMarker || c.sees '#' then some (acc, c, gap.isBroken)
    else do
      let (run, next) ← readPlainRun inFlow c.rest.length [] c
      let (acc, gap) := if run = [] then (acc, gap) else (acc ++ gap.text ++ run, .spaces [])
      match next.head? with
      | none => return (acc, next, gap.isBroken)
      | some x =>
        if isBlank x || isBreak x then
          let (gap, next) ← next.gap (some limit) gap
          if !inFlow && (next.column : Int) < limit then return (acc, next, gap.isBroken)
          readPlainFrom inFlow limit fuel acc gap next
        else return (acc, next, gap.isBroken)

/-- A plain scalar: its continuation lines must reach the column `limit` unless it stands between
    brackets. -/
def readPlain (inFlow : Bool) (limit : Int) (c : Cursor) : Option (List Char × Cursor × Bool) :=
  readPlainFrom inFlow limit (c.rest.length + 1) [] (.spaces []) c

/-! ### Block scalars -/

/-- What becomes of the line breaks at the end of a block scalar. -/
inductive Chomping where
  | strip | clip | keep
deriving DecidableEq, Repr

/-- A chomping indicator at the cursor. -/
def readChomping (c : Cursor) : Option (Chomping × Cursor) :=
  if c.sees '+' then some (.keep, c.skip 1)
  else if c.sees '-' then some (.strip, c.skip 1)
  else none

/-- An indentation indicator at the cursor; a zero is an error, told by the outer level. -/
def readIncrement (c : Cursor) : Option (Option (Nat × Cursor)) :=
  match c.head? with
  | some x =>
    if x = '0' then none
    else if x.isDigit then some (some (digitValue x, c.skip 1))
    else some none
  | none => some none

/-- The indicators of a block scalar, in either order, each at most once. -/
def readBlockHeader (c : Cursor) : Option (Chomping × Option Nat × Cursor) :=
  match readChomping c with
  | some (chomping, c) => do
    match ← readIncrement c with
    | some (n, c) => return (chomping, some n, c)
    | none => return (chomping, none, c)
  | none => do
    match ← readIncrement c with
    | some (n, c) =>
      match readChomping c with
      | some (chomping, c) => return (chomping, some n, c)
      | none => return (.clip, some n, c)
    | none => return (.clip, none, c)

/-- Empty lines at the cursor, up to the column `indent` of the first line that is not empty; while
    `indent` is unknown all leading spaces count, and `widest` is the widest run of them.  A tab in
    the indentation is an error. -/
def readEmptyLines (indent : Option Nat) : Nat → Nat → List Char → Cursor →
    Option (List Char × Nat × Cursor)
  | 0, widest, acc, c => some (acc, widest, c)
  | fuel + 1, widest, acc, c =>
    let spaces := (c.rest.takeWhile (· = ' ')).length
    let c := c.skip (match indent with
      | some n => min spaces (n - c.column)
      | none => spaces)
    let widest := max widest c.column
    let short := match indent with
      | some n => decide (c.column < n)
      | none => true
    if short && c.sees '\t' then none
    else if c.head?.any isBreak then
      let (text, next) := c.lineBreak
      readEmptyLines indent fuel widest (acc ++ text) next
    else some (acc, widest, c)

/-- The lines of a block scalar.  `pending` is the break of the last line, `empty` those of the
    empty lines after it. -/
def readBlockLines (literal : Bool) (indent : Nat) : Nat → (acc pending empty : List Char) →
    (afterIndented : Bool) → Cursor → Option (List Char × List Char × List Char × Cursor)
  | 0, acc, pending, empty, _, c => some (acc, pending, empty, c)
  | fuel + 1, acc, pending, empty, afterIndented, c =>
    if c.column = indent && !c.rest.isEmpty then do
      let indented := c.head?.any isBlank
      let folds := !literal && pending.head? = some '\n' && !afterIndented && !indented
      let between := if folds then (if empty = [] then [' '] else []) else pending
      let (run, c) := c.take (fun x => !isBreak x)
      let (pending, c) := c.lineBreak
      let (more, _, c) ← readEmptyLines (some indent) (c.rest.length + 1) 0 [] c
      readBlockLines literal indent fuel (acc ++ between ++ empty ++ run) pending more indented c
    else some (acc, pending, empty, c)

/-- A block scalar, the cursor at its indicator; `parent` is the column of the enclosing block, or
    minus one. -/
def readBlock (literal : Bool) (parent : Int) (c : Cursor) : Option (List Char × Cursor) := do
  let (chomping, increment, c) ← readBlockHeader (c.skip 1)
  let c := (c.skipWhile isBlank).skipComment
  if !c.atLineEnd then none
  let c := c.skipBreak
  let given := increment.map fun n => (if 0 ≤ parent then parent + n else n).toNat
  let (empty, widest, c) ← readEmptyLines given (c.rest.length + 1) 0 [] c
  let indent := given.getD (max widest (max (parent + 1).toNat 1))
  let (text, pending, trailing, c) ←
    readBlockLines literal indent (c.rest.length + 1) [] [] empty false c
  return (match chomping with
    | .strip => text
    | .clip => text ++ pending
    | .keep => text ++ pending ++ trailing, c)

end SecurityScan.Yaml
