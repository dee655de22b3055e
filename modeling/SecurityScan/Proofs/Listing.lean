import SecurityScan.Proofs.Inline
import SecurityScan.Proofs.Validity
import SecurityScan.Specification.Operation

namespace SecurityScan.Specification

/-!
# The operations of a dereferenced document

Which operations the rules get to see.

* `pathItems`, `operations_eq_flatMap` and `mem_operations` — the operations of a document, path
  item by path item;
* `isReference_paths` — the paths of a valid document do not refer;
* `mem_operations_dereference` — the operations of the dereferenced document are those of its
  replaced path items;
* `mem_operations_dereference_iff` — a path item that does not refer keeps its operations;
* `operations_beside_reference` — one that refers, or a root that refers, need not.
-/

/-- The entries under the paths of a document. -/
def pathItems (doc : Json) : List (String × Json) := ((doc.get? "paths").map Json.entries).getD []

theorem mem_pathItems {doc : Json} {e : String × Json} :
    e ∈ pathItems doc ↔ ∃ paths, doc.get? "paths" = some paths ∧ e ∈ paths.entries := by
  rw [pathItems]
  cases doc.get? "paths" <;> simp

theorem mem_operationsOf {path : String} {item : Json} {o : Operation} :
    o ∈ operationsOf path item ↔
      o.path = path ∧ isMethod o.method = true ∧ (o.method, o.node) ∈ item.entries := by
  rw [operationsOf, List.mem_map]
  constructor
  · rintro ⟨e, he, rfl⟩
    rw [List.mem_filter] at he
    exact ⟨rfl, he.2, he.1⟩
  · rintro ⟨rfl, hmethod, hentry⟩
    exact ⟨(o.method, o.node), List.mem_filter.mpr ⟨hentry, hmethod⟩, rfl⟩

/-- The operations are listed path item by path item. -/
theorem operations_eq_flatMap (doc : Json) :
    operations doc = (pathItems doc).flatMap fun e => operationsOf e.1 e.2 := by
  rw [operations, pathItems]
  cases doc.get? "paths" <;> rfl

theorem mem_operations {doc : Json} {o : Operation} :
    o ∈ operations doc ↔ ∃ item, (o.path, item) ∈ pathItems doc ∧ isMethod o.method = true ∧
      (o.method, o.node) ∈ item.entries := by
  rw [operations_eq_flatMap, List.mem_flatMap]
  constructor
  · rintro ⟨⟨path, item⟩, hitem, ho⟩
    obtain ⟨rfl, hentry⟩ := mem_operationsOf.mp ho
    exact ⟨item, hitem, hentry⟩
  · rintro ⟨item, hitem, hentry⟩
    exact ⟨(o.path, item), hitem, mem_operationsOf.mpr ⟨rfl, hentry⟩⟩

/-- An operation that a lookup finds is listed. -/
theorem mem_operations_of_at? {doc node : Json} {path method : String}
    (hmethod : isMethod method = true) (h : doc.at? ["paths", path, method] = some node) :
    ⟨path, method, node⟩ ∈ operations doc := by
  obtain ⟨paths, hpaths, h⟩ := Option.bind_eq_some_iff.mp h
  obtain ⟨item, hitem, h⟩ := Option.bind_eq_some_iff.mp h
  obtain ⟨_, hnode, h⟩ := Option.bind_eq_some_iff.mp h
  rw [Json.at?, Option.some.injEq] at h
  exact mem_operations.mpr ⟨item, mem_pathItems.mpr ⟨paths, hpaths, Json.mem_entries_of_get? hitem⟩,
    hmethod, h ▸ Json.mem_entries_of_get? hnode⟩

/-- With unique keys, an operation that is written inline is the only one of its path and method,
    whatever references are replaced by. -/
theorem mem_operations_substitute_iff {f : String → Option Json} {doc raw node : Json}
    {path method : String} (hkeys : doc.UniqueKeys) (hmethod : isMethod method = true)
    (h : inlineAt? doc ["paths", path, method] = some raw) :
    ⟨path, method, node⟩ ∈ operations (substitute f doc) ↔ node = substitute f raw := by
  obtain ⟨hroot, paths, hpaths, h⟩ := inlineAt?_cons.mp h
  obtain ⟨hpathsref, item, hitem, h⟩ := inlineAt?_cons.mp h
  obtain ⟨hitemref, _, hraw, h⟩ := inlineAt?_cons.mp h
  rw [inlineAt?, Option.some.injEq] at h
  subst h
  have hpathskeys : paths.UniqueKeys := hkeys.get? hpaths
  have hentry := mem_entries_substitute_iff (f := f) (w := node) (hpathskeys.get? hitem)
    hitemref hraw
  simp only [mem_operations, mem_pathItems, get?_substitute hroot, hpaths, Option.map_some,
    Option.some.injEq, exists_eq_left', mem_entries_substitute_iff hpathskeys hpathsref hitem,
    exists_eq_left, hmethod, true_and, hentry]

/-! ### Path items of valid documents -/

/-- Every key under the paths of a valid document starts with a slash, so none is that of a
    reference. -/
theorem isReference_paths {doc paths : Json} (hvalid : validate doc = .ok ())
    (hpaths : doc.get? "paths" = some paths) : isReference paths = false := by
  obtain ⟨_, version, _, _, hcheck, _⟩ := validate_eq_ok_iff.mp hvalid
  rw [checkPaths, hpaths] at hcheck
  cases paths with
  | obj ms =>
    have hitems := checkPathItems_eq_ok_iff.mp hcheck
    refine Bool.eq_false_iff.mpr fun href => ?_
    rw [isReference, refOf?, Option.isSome_iff_exists] at href
    obtain ⟨r, hr⟩ := href
    obtain ⟨v, hv, _⟩ := Option.bind_eq_some_iff.mp hr
    -- the key of a reference would be a path
    have hslash : refKey.startsWith "/" = true :=
      (hitems _ (Json.mem_entries.mpr (Members.mem_of_get? hv))).1
    exact absurd hslash (by decide +kernel)
  | null | bool | num | str | arr => cases hcheck

section

variable {doc : Json}

theorem mem_pathItems_dereference (hvalid : validate doc = .ok ())
    (hroot : isReference doc = false) {path : String} {item : Json} :
    (path, item) ∈ pathItems (dereference doc) ↔
      ∃ raw, (path, raw) ∈ pathItems doc ∧ substitute (replacement doc) raw = item := by
  simp only [mem_pathItems]
  rw [dereference_eq_substitute, get?_substitute hroot]
  cases hpaths : doc.get? "paths" with
  | none => simp
  | some paths =>
    have hentries : (path, item) ∈ (substitute (replacement doc) paths).entries ↔
        ∃ raw, (path, raw) ∈ paths.entries ∧ substitute (replacement doc) raw = item :=
      mem_entries_substitute (isReference_paths hvalid hpaths)
    simpa using hentries

/-- The rules see the operations of each path item as it was replaced. -/
theorem mem_operations_dereference (hvalid : validate doc = .ok ())
    (hroot : isReference doc = false) {o : Operation} :
    o ∈ operations (dereference doc) ↔ ∃ item, (o.path, item) ∈ pathItems doc ∧
      isMethod o.method = true ∧
      (o.method, o.node) ∈ (substitute (replacement doc) item).entries := by
  rw [mem_operations]
  constructor
  · rintro ⟨item, hitem, hentry⟩
    obtain ⟨raw, hraw, rfl⟩ := (mem_pathItems_dereference hvalid hroot).mp hitem
    exact ⟨raw, hraw, hentry⟩
  · rintro ⟨raw, hraw, hentry⟩
    exact ⟨_, (mem_pathItems_dereference hvalid hroot).mpr ⟨raw, hraw, rfl⟩, hentry⟩

/-- **No operation is hidden.** In a valid document whose root does not refer, a path whose items do
    not refer keeps its operations: the same methods, each with its references replaced. -/
theorem mem_operations_dereference_iff (hvalid : validate doc = .ok ())
    (hroot : isReference doc = false) {path : String}
    (hitems : ∀ item, (path, item) ∈ pathItems doc → isReference item = false) (method : String)
    (node : Json) :
    ⟨path, method, node⟩ ∈ operations (dereference doc) ↔
      ∃ raw, ⟨path, method, raw⟩ ∈ operations doc ∧
        substitute (replacement doc) raw = node := by
  rw [mem_operations_dereference hvalid hroot]
  constructor
  · rintro ⟨item, hitem, hmethod, hentry⟩
    obtain ⟨raw, hraw, hnode⟩ := (mem_entries_substitute (hitems item hitem)).mp hentry
    exact ⟨raw, mem_operations.mpr ⟨item, hitem, hmethod, hraw⟩, hnode⟩
  · rintro ⟨raw, hraw, hnode⟩
    obtain ⟨item, hitem, hmethod, hentry⟩ := mem_operations.mp hraw
    exact ⟨item, hitem, hmethod,
      (mem_entries_substitute (hitems item hitem)).mpr ⟨raw, hentry, hnode⟩⟩

end

/-- A document of version 3.0 with the given members beside what every document needs. -/
def documentWith (ms : Members) : Json := .obj ([
  ("openapi", .str "3.0.0"),
  ("info", .obj [("title", .str "t"), ("version", .str "1")])] ++ ms)

/-- The operation of one path item refers, and the other path item refers itself. -/
def referringOperation : Json := documentWith [
  ("paths", .obj [
    ("/a", .obj [("get", .obj [(refKey, .str "#/components/shared")])]),
    ("/b", .obj [(refKey, .str "#/paths/~1a")])]),
  ("components", .obj [("shared", .obj [("summary", .str "s")])])]

theorem mem_operations_referringOperation :
    (validate referringOperation = .ok () ∧ isReference referringOperation = false ∧
      ∀ item, ("/a", item) ∈ pathItems referringOperation → isReference item = false) ∧
    ⟨"/a", "get", .obj [("summary", .str "s")]⟩ ∈ operations (dereference referringOperation) := by
  have hvalid : validate referringOperation = .ok () :=
    validate_of_paths .openApi30 (by decide +kernel) (by decide) rfl rfl (by decide +kernel) rfl
  have hitems : ∀ item, ("/a", item) ∈ pathItems referringOperation →
      isReference item = false := by
    intro item hitem
    obtain ⟨_, hpaths, hentry⟩ := mem_pathItems.mp hitem
    cases hpaths
    have hmem := Json.mem_entries.mp hentry
    simp at hmem
    rw [hmem]
    rfl
  refine ⟨⟨hvalid, rfl, hitems⟩, ?_⟩
  refine (mem_operations_dereference_iff hvalid rfl hitems "get" _).mpr ?_
  exact ⟨.obj [(refKey, .str "#/components/shared")],
    mem_operations_of_at? (by decide +kernel) rfl, by decide +kernel⟩

/-- A path item with an operation beside its reference. -/
def referringItem : Json := documentWith
  [("paths", .obj [("/a", .obj [(refKey, .str "#/components"), ("get", .obj [])])]),
    ("components", .obj [])]

/-- A root with paths beside its reference. -/
def referringRoot : Json := documentWith
  [("paths", .obj [("/a", .obj [("get", .obj [])])]), (refKey, .str "#/info")]

/-- A path item or a root that refers is replaced with the operations beside its reference, so
    a valid document can lose operations. -/
theorem operations_beside_reference :
    (validate referringItem = .ok () ∧ ⟨"/a", "get", .obj []⟩ ∈ operations referringItem ∧
        operations (dereference referringItem) = []) ∧
      validate referringRoot = .ok () ∧ ⟨"/a", "get", .obj []⟩ ∈ operations referringRoot ∧
        operations (dereference referringRoot) = [] := by
  have hget : isMethod "get" = true := by decide +kernel
  refine ⟨⟨?_, mem_operations_of_at? hget rfl, by decide +kernel⟩,
    ?_, mem_operations_of_at? hget rfl, by decide +kernel⟩
  · exact validate_of_paths .openApi30 (by decide +kernel) (by decide) rfl rfl
      (by decide +kernel) rfl
  · exact validate_of_paths .openApi30 (by decide +kernel) (by decide) rfl rfl
      (by decide +kernel) rfl

end SecurityScan.Specification
