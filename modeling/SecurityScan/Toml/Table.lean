import SecurityScan.Config.Setting

namespace SecurityScan.Toml

/-!
# TOML tables in the making

A table can be opened by a header, come about on the way to another table, or be written through
dotted keys; each way allows other additions later.

* `Entry` — what stands under a key so far;
* `Entries.assign?` — a value put under a dotted key of a table;
* `Entries.open?` and `Entries.append?` — a table, or one more table of a list, opened by a header;
* `Entries.inside?` — a change to the table that a header has opened;
* `Entry.toSetting` — the setting in the end.
-/

/-- How a table came about. -/
inductive Origin where
  /-- On the way to a table that a header opened. -/
  | passed
  /-- By its own header. -/
  | header
  /-- By a dotted key. -/
  | dotted
deriving DecidableEq, Repr

/-- What stands under a key. -/
inductive Entry where
  | value (v : Setting)
  | table (origin : Origin) (entries : List (String × Entry))
  /-- Tables of one name; only the last can still change. -/
  | tables (earlier : List (List (String × Entry))) (last : List (String × Entry))

/-- The entries of a table. -/
abbrev Entries := List (String × Entry)

namespace Entries

/-- Writes an entry under a key: in place if the key is there, else at the end. -/
def put : Entries → String → Entry → Entries
  | [], key, e => [(key, e)]
  | (k, x) :: es, key, e => if k = key then (k, e) :: es else (k, x) :: put es key e

/-- Puts a value under a dotted key, which must be new.  A dotted key goes through tables without a
    header of their own, and ends in one that dotted keys have made. -/
def assign? (v : Setting) : List String → Entries → Option Entries
  | [], _ => none
  | [key], es => if (es.lookup key).isSome then none else some (es ++ [(key, .value v)])
  | key :: path, es =>
    match es.lookup key with
    | none => (assign? v path []).map fun t => es ++ [(key, .table .dotted t)]
    | some (.table .dotted t) => (assign? v path t).map fun t => put es key (.table .dotted t)
    | some (.table .passed t) =>
      if path.length < 2 then none
      else (assign? v path t).map fun t => put es key (.table .passed t)
    | some _ => none

/-- Changes the table at a path of keys.  Tables that are not there yet are made on the way; of
    several tables under one key the last is meant. -/
def inside? (change : Entries → Option Entries) : List String → Entries → Option Entries
  | [], es => change es
  | key :: path, es =>
    match es.lookup key with
    | none => (inside? change path []).map fun t => es ++ [(key, .table .passed t)]
    | some (.table o t) => (inside? change path t).map fun t => put es key (.table o t)
    | some (.tables earlier t) => (inside? change path t).map fun t => put es key (.tables earlier t)
    | some (.value _) => none

/-- Opens a table: it must be new, or come about only on the way to others. -/
def openHere? (key : String) (es : Entries) : Option Entries :=
  match es.lookup key with
  | none => some (es ++ [(key, .table .header [])])
  | some (.table .passed t) => some (put es key (.table .header t))
  | some _ => none

/-- Opens one more table of a list of tables. -/
def appendHere? (key : String) (es : Entries) : Option Entries :=
  match es.lookup key with
  | none => some (es ++ [(key, .tables [] [])])
  | some (.tables earlier last) => some (put es key (.tables (earlier ++ [last]) []))
  | some _ => none

/-- Opens the table with a dotted key. -/
def open? (path : List String) (es : Entries) : Option Entries :=
  match path.getLast? with
  | some key => inside? (openHere? key) path.dropLast es
  | none => none

/-- Opens one more of the tables with a dotted key. -/
def append? (path : List String) (es : Entries) : Option Entries :=
  match path.getLast? with
  | some key => inside? (appendHere? key) path.dropLast es
  | none => none

end Entries

mutual
/-- The setting that an entry is in the end. -/
def Entry.toSetting : Entry → Setting
  | .value v => v
  | .table _ es => .table (entriesToSettings es)
  | .tables earlier last => .list (tablesToSettings earlier ++ [.table (entriesToSettings last)])
/-- The settings of a table's entries. -/
def entriesToSettings : List (String × Entry) → List (String × Setting)
  | [] => []
  | (k, e) :: es => (k, e.toSetting) :: entriesToSettings es
/-- The settings of several tables. -/
def tablesToSettings : List (List (String × Entry)) → List Setting
  | [] => []
  | t :: ts => .table (entriesToSettings t) :: tablesToSettings ts
end

end SecurityScan.Toml
