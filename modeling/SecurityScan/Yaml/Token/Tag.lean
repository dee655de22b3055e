import SecurityScan.Yaml.Cursor
import SecurityScan.Decimal.Reading

namespace SecurityScan.Yaml

open Decimal

/-!
# Tags and directives in YAML text

* `readTag` — the handle and the suffix of a tag on a node;
* `readVersion` and `readShorthand` — the two directives, without their names.
-/

/-- The characters of a tag; those after the blank may stand only where a tag is written in full. -/
def isTagChar (full : Bool) (c : Char) : Bool :=
  isNameChar c || ";/?:@&=+$.!~*'()%".toList.contains c || (full && (c = ',' || c = '[' || c = ']'))

/-- How many octets the character of a first UTF-8 octet takes, and the bits that the octet adds. -/
def leadOctet (n : Nat) : Option (Nat × Nat) :=
  if n < 0x80 then some (1, n)
  else if 0xC0 ≤ n ∧ n < 0xE0 then some (2, n % 0x20)
  else if 0xE0 ≤ n ∧ n < 0xF0 then some (3, n % 0x10)
  else if 0xF0 ≤ n ∧ n < 0xF8 then some (4, n % 0x08)
  else none

/-- An octet written as a percent sign and two hexadecimal digits. -/
def readOctet : List Char → Option (Nat × List Char)
  | '%' :: a :: b :: rest =>
    if isDigitOf 16 a && isDigitOf 16 b then some (valueIn 16 [a, b], rest) else none
  | _ => none

/-- The octets that continue a character. -/
def readTail : Nat → Nat → List Char → Option (Nat × List Char)
  | 0, n, cs => some (n, cs)
  | k + 1, n, cs => do
    let (octet, rest) ← readOctet cs
    if 0x80 ≤ octet ∧ octet < 0xC0 then readTail k (n * 0x40 + octet % 0x40) rest else none

/-- A character written in octets, and how many characters of the text it takes. -/
def readEscapedChar (cs : List Char) : Option (Char × Nat) := do
  let (octet, rest) ← readOctet cs
  let (width, bits) ← leadOctet octet
  let (n, _) ← readTail (width - 1) bits rest
  return (Char.ofNat n, 3 * width)

/-- The characters of a tag, octets decoded.  The fuel is the number of characters left. -/
def readTagChars (full : Bool) : Nat → List Char → Cursor → Option (List Char × Cursor)
  | 0, acc, c => some (acc, c)
  | fuel + 1, acc, c =>
    match c.head? with
    | some x =>
      if !isTagChar full x then some (acc, c)
      else if x = '%' then do
        let (y, width) ← readEscapedChar c.rest
        readTagChars full fuel (acc ++ [y]) (c.skip width)
      else readTagChars full fuel (acc ++ [x]) (c.skip 1)
    | none => some (acc, c)

/-- A tag text that follows `lead`; the whole must not be empty. -/
def readTagText (full : Bool) (lead : List Char) (c : Cursor) : Option (List Char × Cursor) := do
  let (cs, c) ← readTagChars full c.rest.length (lead.drop 1) c
  if lead.isEmpty && cs.isEmpty then none else return (cs, c)

/-- A handle: an exclamation mark, and perhaps a name and a second mark. -/
def readHandle (c : Cursor) : Option (List Char × Cursor) :=
  if c.sees '!' then
    let (name, c) := (c.skip 1).take isNameChar
    if c.sees '!' then some ('!' :: name ++ ['!'], c.skip 1) else some ('!' :: name, c)
  else none

/-- The handle and the suffix of a tag, the cursor at its exclamation mark.  A tag written in full
    has no handle; nor has the lone mark, whose suffix it is. -/
def readTagParts (c : Cursor) : Option (List Char × List Char × Cursor) :=
  if c.at? 1 = some '<' then do
    let (suffix, c) ← readTagText true [] (c.skip 2)
    if c.sees '>' then return ([], suffix, c.skip 1) else none
  else do
    let (handle, c) ← readHandle c
    if 2 ≤ handle.length && handle.getLast? = some '!' then
      let (suffix, c) ← readTagText false [] c
      return (handle, suffix, c)
    else
      let (suffix, c) ← readTagText false handle c
      if suffix = [] then return ([], ['!'], c) else return (['!'], suffix, c)

/-- A tag: it must end at a blank or at the end of the line, or before a comma in brackets. -/
def readTag (inFlow : Bool) (c : Cursor) : Option (String × String × Cursor) := do
  let (handle, suffix, c) ← readTagParts c
  if endsWord c.head? || (inFlow && c.sees ',') then
    return (String.ofList handle, String.ofList suffix, c)
  else none

/-! ### Directives -/

/-- A version number of one to nine digits. -/
def readVersionNumber (c : Cursor) : Option (Nat × Cursor) :=
  let (ds, c) := c.take Char.isDigit
  if ds.isEmpty || 9 < ds.length then none else some (value ds, c)

/-- The two numbers of a version. -/
def readVersion (c : Cursor) : Option (Nat × Nat × Cursor) := do
  let (major, c) ← readVersionNumber (c.skipWhile isBlank)
  if !c.sees '.' then none
  let (minor, c) ← readVersionNumber (c.skip 1)
  return (major, minor, c)

/-- A handle and the text it stands for. -/
def readShorthand (c : Cursor) : Option (String × String × Cursor) := do
  let (handle, c) ← readHandle (c.skipWhile isBlank)
  if handle ≠ ['!'] ∧ ¬ (2 ≤ handle.length ∧ handle.getLast? = some '!') then none
  if !c.head?.any isBlank then none
  let (lead, c) ← readTagText true [] (c.skipWhile isBlank)
  if !endsWord c.head? then none
  return (String.ofList handle, String.ofList lead, c)

end SecurityScan.Yaml
