import SecurityScan.Decimal.Reading
import SecurityScan.Decimal.Shortest
import SecurityScan.Text.Search

namespace SecurityScan

open Decimal

/-!
# Settings

What configuration files and the environment say, before it is known what is asked.

* `Setting` — a value, a list or a table;
* `Setting.layOver` — a later setting over an earlier one: a table is merged into a table key by
  key, all else is replaced;
* `Setting.path` and `Setting.place` — the place that a source's name stands for, and a setting put
  there;
* `Settings.overlay` — a later source over an earlier one;
* `Setting.text?`, `Setting.word?`, `Setting.texts?` — a setting as a text, a number or a list of
  texts; values of other kinds are turned into what is asked where that makes sense.
-/

/-- What a source says under a key. -/
inductive Setting where
  | bool (b : Bool)
  | int (i : Int)
  | float (x : Float)
  | text (s : String)
  | list (items : List Setting)
  | table (entries : List (String × Setting))
  /-- A place in a list that nothing has been put in. -/
  | unset
deriving Repr, Inhabited

/-- The entries of a table, each key once. -/
abbrev Settings := List (String × Setting)

namespace Setting

/-- The entries of a table; none of any other setting. -/
def entries : Setting → Settings
  | .table es => es
  | _ => []

/-- The items of a list; none of any other setting. -/
def items : Setting → List Setting
  | .list vs => vs
  | _ => []

/-- Writes a setting under a key: in place if the key is there, else at the end. -/
def put (es : Settings) (key : String) (v : Setting) : Settings :=
  match es with
  | [] => [(key, v)]
  | (k, w) :: rest => if k = key then (k, v) :: rest else (k, w) :: put rest key v

mutual
/-- A later setting over an earlier one.  A table is merged into what is a table; over another kind
    of setting it is merged into nothing, and so replaces it even if it is empty. -/
def layOver (earlier : Option Setting) : Setting → Setting
  | .table es => .table (layEntriesOver ((earlier.map entries).getD []) es)
  | v => v
/-- Later entries over earlier ones, one after the other. -/
def layEntriesOver (old : Settings) : List (String × Setting) → Settings
  | [] => old
  | (k, v) :: es => layEntriesOver (put old k (layOver (old.lookup k) v)) es
end

/-! ### Places -/

/-- One step into settings. -/
inductive Step where
  | key (name : String)
  /-- A place in a list; below zero it is counted from the end. -/
  | index (i : Int)
deriving DecidableEq, Repr

/-- The characters of a name inside a path. -/
def isNameChar (c : Char) : Bool := c.isAlphanum || c = '_' || c = '-'

/-- The index before a closing bracket. -/
def index? (cs : List Char) : Option Step :=
  if cs.getLast? ≠ some ']' then none
  else
    let i : Option Int := match Text.stripEnds Text.isPad cs.dropLast with
      | '-' :: ds => (natIn? 10 ds).map fun n => -(n : Int)
      | ds => (natIn? 10 ds).map fun n => (n : Int)
    (i.filter fun i => -(Int.pow 2 63) ≤ i && i < Int.pow 2 63).map .index

/-- A name with the indices behind it. -/
def namedSteps? (cs : List Char) : Option (List Step) :=
  match Text.splitAt '[' cs with
  | [] => none
  | name :: groups =>
    if name.isEmpty || !name.all isNameChar then none
    else (groups.mapM index?).map (.key (String.ofList name) :: ·)

/-- The place that a name stands for: names with dots between them and indices in brackets.  A name
    of any other form is a single key. -/
def path (name : String) : List Step :=
  match (Text.splitAt '.' name.toList).mapM namedSteps? with
  | some steps => steps.flatten
  | none => [.key name]

/-- The items of a list with one of them changed.  The list grows at either end to have it. -/
def changeAt (vs : List Setting) (i : Int) (change : Option Setting → Setting) : List Setting :=
  let j := if 0 ≤ i then i else vs.length + i
  if j < 0 then change none :: (List.replicate ((-j).toNat - 1) .unset ++ vs)
  else
    let padded := vs ++ List.replicate (j.toNat + 1 - vs.length) .unset
    padded.set j.toNat (change padded[j.toNat]?)

/-- Puts a setting at a place inside another.  What stands in the way of the place is replaced by
    tables and lists. -/
def place : List Step → Setting → Option Setting → Setting
  | [], v, earlier => layOver earlier v
  | .key name :: path, v, earlier =>
    let es := (earlier.map entries).getD []
    .table (put es name (place path v (es.lookup name)))
  | .index i :: path, v, earlier =>
    .list (changeAt ((earlier.map items).getD []) i (place path v))

end Setting

/-- A later source over an earlier one.  The names of a source stand for places. -/
def Settings.overlay (earlier later : Settings) : Settings :=
  later.foldl (fun es p => (Setting.place (Setting.path p.1) p.2 (some (.table es))).entries)
    earlier

namespace Setting

/-! ### Reading settings -/

/-- The text of a float without an exponent: no decimals where there are none. -/
def floatText (x : Float) : String :=
  if x.isNaN then "NaN"
  else if x.isInf then (if x < 0.0 then "-inf" else "inf")
  else
    let (d, k) := (Parts.ofFloat x).shortest
    let ds := digits d
    let body :=
      if 0 ≤ k then ds ++ List.replicate k.toNat '0'
      else
        let places := (-k).toNat
        let padded := List.replicate (places + 1 - ds.length) '0' ++ ds
        let cut := padded.length - places
        padded.take cut ++ '.' :: padded.drop cut
    String.ofList ((if (Parts.ofFloat x).negative then ['-'] else []) ++
      if d = 0 then ['0'] else body)

/-- A setting as a text. -/
def text? : Setting → Option String
  | .text s => some s
  | .bool b => some (if b then "true" else "false")
  | .int i => some (toString i)
  | .float x => some (floatText x)
  | _ => none

/-- Decimal digits, perhaps after a plus sign. -/
def digits? (s : String) : Option Nat :=
  let ds := match s.toList with
    | '+' :: rest => rest
    | cs => cs
  if !ds.isEmpty && ds.all Char.isDigit then some (value ds) else none

/-- The number a word stands for, or its digits. -/
def wordNumber? (s : String) : Option Nat :=
  if ["true", "on", "yes"].any (Text.sameWord s) then some 1
  else if ["false", "off", "no"].any (Text.sameWord s) then some 0
  else digits? s

/-- A setting as a number below a bound.  A float is rounded, a half away from zero; a negative one
    counts as zero. -/
def word? (bound : Nat) (v : Setting) : Option Nat :=
  let n := match v with
    | .int i => if 0 ≤ i then some i.toNat else none
    | .bool b => some (if b then 1 else 0)
    | .float x => some x.round.toUInt64.toNat
    | .text s => (wordNumber? s).filter (· < Nat.pow 2 64)
    | _ => none
  n.filter (· < bound)

/-- A setting as a list of texts. -/
def texts? : Setting → Option (List String)
  | .list vs => vs.mapM text?
  | _ => none

end Setting

end SecurityScan
