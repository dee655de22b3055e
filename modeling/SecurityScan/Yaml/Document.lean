import SecurityScan.Yaml.Value
import SecurityScan.Json.Printer

namespace SecurityScan.Yaml

/-!
# The document of a YAML value

* `Yaml.toJson` — the value without its tags, every key a string;
* `Yaml.keyText` — the string that a key becomes.

Keys that become the same string share one member: it stands where the first of them stood and has
the value of the last.
-/

mutual
/-- The document of a value. -/
def toJson : Yaml → Json
  | .null => .null
  | .bool b => .bool b
  | .num n => numberJson n
  | .str s => .str s
  | .seq items => .arr (toJsonItems items)
  | .map entries => .obj (Members.ofPairs (toJsonEntries entries))
  | .tagged _ v => toJson v
/-- The documents of the items. -/
def toJsonItems : List Yaml → List Json
  | [] => []
  | v :: vs => toJson v :: toJsonItems vs
/-- Each entry with its key as a string, in the order of the text. -/
def toJsonEntries : List (Yaml × Yaml) → List (String × Json)
  | [] => []
  | (k, v) :: es => (keyText k, toJson v) :: toJsonEntries es
/-- The string that a key becomes: a string is itself, another scalar its text, and a collection or
    a tagged value the compact text of its document. -/
def keyText : Yaml → String
  | .str s => s
  | .num n => numberText n
  | .bool true => "true"
  | .bool false => "false"
  | .null => "null"
  | .seq items => (Json.arr (toJsonItems items)).compact
  | .map entries => (Json.obj (Members.ofPairs (toJsonEntries entries))).compact
  | .tagged _ v => (toJson v).compact
end

theorem toJsonItems_eq_map (items : List Yaml) : toJsonItems items = items.map toJson := by
  induction items with
  | nil => rfl
  | cons v vs ih => rw [toJsonItems, ih, List.map_cons]

theorem toJsonEntries_eq_map (entries : List (Yaml × Yaml)) :
    toJsonEntries entries = entries.map fun e => (keyText e.1, toJson e.2) := by
  induction entries with
  | nil => rfl
  | cons e es ih => rw [toJsonEntries, ih, List.map_cons]

end SecurityScan.Yaml
