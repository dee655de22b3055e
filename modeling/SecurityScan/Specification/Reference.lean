import SecurityScan.Specification.Pointer

namespace SecurityScan.Specification

/-!
# References

An object with a string under `$ref` refers to another place of its document, if the string is a hash
sign and a pointer.

* `targetOf` — the place a reference leads to, or why it leads nowhere;
* `references` — the references of a document in the order of the text;
* `dereference` — the document with its references replaced by what they lead to, as far as they do
  not lead in circles and at most `maxOpenReferences` inside one another.
-/

/-- The key of a reference. -/
def refKey : String := "$ref"

/-- The reference of an object: what else the object holds does not count. -/
def refOf? (ms : Members) : Option String := (ms.get? refKey).bind Json.asStr?

/-- Why a reference leads nowhere. -/
inductive BrokenReference where
  /-- It does not point into its own document. -/
  | external
  /-- There is nothing at the place. -/
  | dangling
deriving DecidableEq, Repr

/-- The place in `doc` a reference leads to. -/
def targetOf (doc : Json) (reference : String) : Except BrokenReference Json :=
  match reference.toList with
  | '#' :: pointer =>
    match doc.pointer? (String.ofList pointer) with
    | some v => .ok v
    | none => .error .dangling
  | _ => .error .external

/-! ### All references -/

mutual
/-- The strings under `$ref` anywhere in a value, in the order of the text. -/
def references : Json → List String
  | .arr vs => referencesOfItems vs
  | .obj ms => referencesOfMembers ms
  | _ => []
/-- The references in the items. -/
def referencesOfItems : List Json → List String
  | [] => []
  | v :: vs => references v ++ referencesOfItems vs
/-- The references in the members. -/
def referencesOfMembers : List (String × Json) → List String
  | [] => []
  | (k, v) :: ms =>
    (match v with
      | .str s => if k = refKey then [s] else []
      | v => references v) ++ referencesOfMembers ms
end

/-! ### Replacing references -/

/-- What is known while references are replaced. -/
structure Resolution where
  /-- What references were replaced by. -/
  cache : List (String × Json)
  /-- The references that are being replaced, the innermost first. -/
  active : List String

/-- A computation on what is known. -/
abbrev Resolving := StateM Resolution

/-- At most so many references are replaced inside one another. -/
def maxOpenReferences : Nat := 50

mutual
/-- Rebuilds a value from its parts, every object with a reference replaced if `follow` has something
    to replace it by. -/
def rebuild (follow : String → Resolving (Option Json)) : Json → Resolving Json
  | .obj ms => do
    match refOf? ms with
    | some reference =>
      match ← follow reference with
      | some target => return target
      | none => return .obj (← rebuildMembers follow ms)
    | none => return .obj (← rebuildMembers follow ms)
  | .arr vs => return .arr (← rebuildItems follow vs)
  | v => return v
/-- Rebuilds the items in their order. -/
def rebuildItems (follow : String → Resolving (Option Json)) : List Json → Resolving (List Json)
  | [] => return []
  | v :: vs => do
    let w ← rebuild follow v
    return w :: (← rebuildItems follow vs)
/-- Rebuilds the members' values in their order. -/
def rebuildMembers (follow : String → Resolving (Option Json)) :
    List (String × Json) → Resolving (List (String × Json))
  | [] => return []
  | (k, v) :: ms => do
    let w ← rebuild follow v
    return (k, w) :: (← rebuildMembers follow ms)
end

/-- What a reference is replaced by while `room` more references may be open.  A reference that is
    already open, or that leads nowhere, stays; one that was replaced before is not worked out
    again. -/
def follow (doc : Json) : (room : Nat) → String → Resolving (Option Json)
  | 0, _ => return none
  | room + 1, reference => do
    let known ← get
    if known.active.contains reference then return none
    match known.cache.lookup reference with
    | some v => return some v
    | none =>
      match targetOf doc reference with
      | .error _ => return none
      | .ok target =>
        set { known with active := reference :: known.active }
        let v ← rebuild (follow doc room) target
        modify fun r => { cache := (reference, v) :: r.cache, active := r.active.erase reference }
        return some v

/-- The document with its references replaced. -/
def dereference (doc : Json) : Json :=
  (rebuild (follow doc maxOpenReferences) doc ⟨[], []⟩).1

end SecurityScan.Specification
