import SecurityScan.Proofs.Exposure
import SecurityScan.Proofs.Selection
import Mathlib.Data.List.Forall2
import Mathlib.Data.List.Nodup
import Mathlib.Data.Prod.Basic

namespace SecurityScan

open Specification Text

/-!
# Which operations are reported as unsecured

* `isMethod_iff` — what names an operation, in any case of letters;
* `mem_operations_iff_at?` and `nodup_operations` — the operations of a document are what lookups
  find under its paths, each path and method once;
* `Operation.eq_of_locator` — the last dot of a place ends the path, so a place tells both path and
  method;
* `Reports` and `openOperations` — the findings on operations and the operations that are due one;
* `nodup_paths_check` — no place has two findings on authentication;
* `authentication_reports` — all this for the rule, on any document.
-/

/-! ### Operations -/

namespace Specification

/-- A key names an operation if it is a method in any case of letters. -/
theorem isMethod_iff {key : String} :
    isMethod key = true ↔ ∃ known ∈ methods, sameWord known key = true := by
  have hlower : ∀ known ∈ methods, known.map Char.toLower = known := by decide +kernel
  rw [isMethod, List.contains_iff_mem]
  constructor
  · intro h
    exact ⟨_, h, by rw [sameWord, hlower _ h, beq_self_eq_true]⟩
  · rintro ⟨known, hknown, hsame⟩
    rw [sameWord, hlower known hknown, beq_iff_eq] at hsame
    exact hsame ▸ hknown

section

variable {doc : Json} (hdoc : doc.UniqueKeys)

include hdoc

theorem nodup_pathItems : ((pathItems doc).map (·.1)).Nodup := by
  rw [pathItems]
  cases hpaths : doc.get? "paths" with
  | none => exact List.nodup_nil
  | some paths => exact (hdoc.get? hpaths).nodup_entries

theorem get?_of_mem_pathItems {e : String × Json} (he : e ∈ pathItems doc) :
    ∃ paths, doc.get? "paths" = some paths ∧ paths.get? e.1 = some e.2 := by
  obtain ⟨paths, hpaths, hentry⟩ := mem_pathItems.mp he
  exact ⟨paths, hpaths, (hdoc.get? hpaths).mem_entries_iff.mp hentry⟩

theorem uniqueKeys_of_mem_pathItems {e : String × Json} (he : e ∈ pathItems doc) :
    e.2.UniqueKeys := by
  obtain ⟨paths, hpaths, hget⟩ := get?_of_mem_pathItems hdoc he
  exact (hdoc.get? hpaths).get? hget

/-- With unique keys the operations are what lookups find under the paths. -/
theorem mem_operations_iff_at? {path method : String} {node : Json} :
    ⟨path, method, node⟩ ∈ operations doc ↔
      isMethod method = true ∧ doc.at? ["paths", path, method] = some node := by
  constructor
  · intro h
    obtain ⟨item, hitem, hmethod, hnode⟩ := mem_operations.mp h
    obtain ⟨paths, hpaths, hget⟩ := get?_of_mem_pathItems hdoc hitem
    have hgetnode : item.get? method = some node :=
      (uniqueKeys_of_mem_pathItems hdoc hitem).mem_entries_iff.mp hnode
    exact ⟨hmethod, by simp [Json.at?, hpaths, hget, hgetnode]⟩
  · rintro ⟨hmethod, hat⟩
    exact mem_operations_of_at? hmethod hat

/-- **No operation is listed twice.** -/
theorem nodup_operations : ((operations doc).map fun o => (o.path, o.method)).Nodup := by
  have hlisted : ∀ (path : String) (item : Json),
      (operationsOf path item).map (fun o => (o.path, o.method)) =
        ((item.entries.filter fun e => isMethod e.1).map (·.1)).map (Prod.mk path) := by
    intro path item
    rw [operationsOf, List.map_map, List.map_map]
    rfl
  rw [operations_eq_flatMap, List.map_flatMap, List.nodup_flatMap]
  refine ⟨fun e he => ?_, ?_⟩
  · -- the methods of one path item are among its keys
    rw [hlisted]
    have hkeys := (uniqueKeys_of_mem_pathItems hdoc he).nodup_entries
    have hmethods : ((e.2.entries.filter fun e => isMethod e.1).map (·.1)).Nodup :=
      (List.filter_sublist.map _).nodup hkeys
    exact hmethods.map (Prod.mk_right_injective e.1)
  · -- two path items have different paths
    refine (List.pairwise_map.mp (nodup_pathItems hdoc)).imp fun {e e'} hne => ?_
    show List.Disjoint (List.map _ (operationsOf e.1 e.2)) (List.map _ (operationsOf e'.1 e'.2))
    rw [hlisted, hlisted]
    intro pm hpm hpm'
    obtain ⟨_, _, rfl⟩ := List.mem_map.mp hpm
    obtain ⟨_, _, heq⟩ := List.mem_map.mp hpm'
    exact hne (congrArg Prod.fst heq).symm

end

/-- Two lists are cut at the same place by an element that is in neither end. -/
theorem append_cons_inj_left {c : Char} {as as' bs bs' : List Char} (hbs : c ∉ bs) (hbs' : c ∉ bs')
    (h : as ++ c :: bs = as' ++ c :: bs') : as = as' ∧ bs = bs' := by
  have hreverse := congrArg List.reverse h
  simp only [List.reverse_append, List.reverse_cons, List.append_assoc, List.singleton_append]
    at hreverse
  obtain ⟨hb, ha⟩ := append_cons_inj (mt List.mem_reverse.mp hbs) (mt List.mem_reverse.mp hbs')
    hreverse
  exact ⟨List.reverse_inj.mp ha, List.reverse_inj.mp hb⟩

/-- **A place tells its operation.** The path may have dots in it, the method has none. -/
theorem Operation.eq_of_locator {o o' : Operation} (ho : isMethod o.method = true)
    (ho' : isMethod o'.method = true) (h : o.locator = o'.locator) :
    o.path = o'.path ∧ o.method = o'.method := by
  have hdot : ∀ {method : String}, isMethod method = true → '.' ∉ method.toList :=
    fun hmethod => notMem_of_isMethod hmethod (by decide)
  simp only [locator, String.append_assoc, String.append_right_inj] at h
  have hlist := congrArg String.toList h
  simp only [String.toList_append] at hlist
  obtain ⟨hpath, hmethod⟩ := append_cons_inj_left (hdot ho) (hdot ho') hlist
  exact ⟨String.toList_inj.mp hpath, String.toList_inj.mp hmethod⟩

/-- Two operations of a document with unique keys have different places. -/
theorem eq_of_locator_of_mem {doc : Json} (hdoc : doc.UniqueKeys) {o o' : Operation}
    (ho : o ∈ operations doc) (ho' : o' ∈ operations doc) (h : o.locator = o'.locator) :
    o = o' := by
  obtain ⟨hmethod, _⟩ := (mem_operations_iff_at? hdoc).mp ho
  obtain ⟨hmethod', _⟩ := (mem_operations_iff_at? hdoc).mp ho'
  obtain ⟨hpath, heq⟩ := Operation.eq_of_locator hmethod hmethod' h
  exact List.inj_on_of_nodup_map (nodup_operations hdoc) ho ho' (Prod.ext hpath heq)

/-- No place of an operation is that of the document as a whole. -/
theorem Operation.locator_ne_rootPath (o : Operation) : o.locator ≠ rootPath := by
  intro h
  have hlist := congrArg (fun s => s.toList.head?) h
  simp [locator, rootPath] at hlist

end Specification

/-! ### Findings -/

namespace Rule.Authentication

/-- The finding is a serious one about authentication, at the place of the operation. -/
structure Reports (o : Operation) (f : Finding) : Prop where
  severity : f.severity = .high
  weakness : f.weakness = .authentication
  path : f.path = o.locator

/-- The operations that nothing requires security for, in their order. -/
def openOperations (doc : Json) : List Operation :=
  if declared (doc.get? "security") then []
  else (operations doc).filter fun o => !declared (o.node.get? "security")

theorem check_eq (doc : Json) :
    check doc = (if hasSchemes doc then [] else [noSchemes]) ++
      (openOperations doc).map unsecured := by
  rw [check, openOperations]
  congr 2
  by_cases hglobal : declared (doc.get? "security") = true
  · rw [if_pos hglobal, List.filter_eq_nil_iff]
    simp [isSecured, hasGlobalSecurity, hglobal]
  · rw [if_neg hglobal]
    simp [isSecured, hasGlobalSecurity, hglobal]

theorem openOperations_sublist (doc : Json) : (openOperations doc).Sublist (operations doc) := by
  rw [openOperations]
  split
  · exact List.nil_sublist _
  · exact List.filter_sublist

theorem forall₂_reports (os : List Operation) : List.Forall₂ Reports os (os.map unsecured) := by
  rw [List.forall₂_map_right_iff, List.forall₂_same]
  exact fun _ _ => ⟨rfl, rfl, rfl⟩

/-- No place has two findings. -/
theorem nodup_paths_check {doc : Json} (hdoc : doc.UniqueKeys) :
    ((check doc).map Finding.path).Nodup := by
  have hoperations : ((operations doc).map Operation.locator).Nodup :=
    (List.Nodup.of_map _ (nodup_operations hdoc)).map_on
      fun _ ho _ ho' => eq_of_locator_of_mem hdoc ho ho'
  have hopen : (((openOperations doc).map unsecured).map Finding.path).Nodup := by
    rw [List.map_map]
    exact ((openOperations_sublist doc).map _).nodup hoperations
  rw [check_eq]
  split
  · exact hopen
  · refine List.nodup_cons.mpr ⟨fun hmem => ?_, hopen⟩
    obtain ⟨f, hf, hroot⟩ := List.mem_map.mp hmem
    obtain ⟨o, _, rfl⟩ := List.mem_map.mp hf
    exact o.locator_ne_rootPath hroot

/-- A finding is the one on the document, or at the place of an operation without requirements. -/
theorem mem_check {doc : Json} {f : Finding} (hf : f ∈ check doc) :
    f.path = rootPath ∨ ∃ o ∈ openOperations doc, f.path = o.locator := by
  rw [check_eq, List.mem_append, List.mem_map] at hf
  rcases hf with hf | ⟨o, ho, rfl⟩
  · split at hf
    · cases hf
    · rw [List.mem_singleton.mp hf]
      exact .inl rfl
  · exact .inr ⟨o, ho, rfl⟩

end Rule.Authentication

open Rule.Authentication in
/-- **Every unsecured operation is reported once, and the report tells which it is.** Take a document
    that repeats no key, as no loaded and no dereferenced one does.  Its operations are what stands
    at a method under a path, each path and method once, and they have different places.  The rule
    finds that the document has no schemes exactly if none of the three places declares something;
    then it has one finding for each operation without requirements, in their order.  No two
    findings have the same place, and every one but that on the document determines its
    operation. -/
theorem authentication_reports {doc : Json} (hdoc : doc.UniqueKeys) :
    (((operations doc).map fun o => (o.path, o.method)).Nodup ∧
        ∀ path method node, ⟨path, method, node⟩ ∈ operations doc ↔
          (∃ known ∈ methods, sameWord known method = true) ∧
            doc.at? ["paths", path, method] = some node) ∧
      (∀ o ∈ operations doc, ∀ o' ∈ operations doc, o ≠ o' → o.locator ≠ o'.locator) ∧
      (∃ findings, List.Forall₂ Reports (openOperations doc) findings ∧
        check doc = (if ∃ place ∈ [["security"], ["securityDefinitions"],
          ["components", "securitySchemes"]], declared (doc.at? place) = true
          then [] else [noSchemes]) ++ findings) ∧
      ((check doc).map Finding.path).Nodup ∧
      ∀ f ∈ check doc, f.path ≠ rootPath →
        ∃ o ∈ openOperations doc, ∀ o' ∈ operations doc, o'.locator = f.path ↔ o' = o := by
  have hschemes : (∃ place ∈ [["security"], ["securityDefinitions"],
      ["components", "securitySchemes"]], declared (doc.at? place) = true) ↔
        hasSchemes doc = true := by
    simp [hasSchemes, hasGlobalSecurity, Json.at?, or_assoc]
  refine ⟨⟨nodup_operations hdoc, fun path method node => ?_⟩, ?_, ?_, nodup_paths_check hdoc, ?_⟩
  · rw [← isMethod_iff]
    exact mem_operations_iff_at? hdoc
  · intro o ho o' ho' hne hlocator
    exact hne (eq_of_locator_of_mem hdoc ho ho' hlocator)
  · refine ⟨_, forall₂_reports _, ?_⟩
    simp only [hschemes, check_eq]
  · intro f hf hroot
    obtain ⟨o, ho, hpath⟩ := (mem_check hf).resolve_left hroot
    refine ⟨o, ho, fun o' ho' => ?_⟩
    rw [hpath]
    constructor
    · exact eq_of_locator_of_mem hdoc ho' ((openOperations_sublist doc).subset ho)
    · rintro rfl
      rfl

/-- Two methods that differ in the case of their letters, and a path that goes on after a dot as the
    place of another operation does. -/
def crossedDocument : Json := .obj [("paths", .obj [
  ("/a", .obj [("get", .obj []), ("GET", .obj [("security", .arr [])]), ("summary", .str "s")]),
  ("/a.get", .obj [("put", .obj [])])])]

theorem authentication_reports_crossedDocument :
    crossedDocument.UniqueKeys ∧
      ((Rule.Authentication.check crossedDocument).map Finding.path).Nodup ∧
      ∀ o ∈ operations crossedDocument, o.locator = "paths./a.get" ↔
        o = ⟨"/a", "get", .obj []⟩ := by
  have hkeys : crossedDocument.UniqueKeys := by
    simp [crossedDocument, Json.UniqueKeys, Json.UniqueKeysMembers, Json.UniqueKeysItems,
      Members.UniqueKeys, Members.keys]
  obtain ⟨⟨_, hlisted⟩, hplaces, _, hpaths, _⟩ := authentication_reports hkeys
  have hget : (⟨"/a", "get", .obj []⟩ : Operation) ∈ operations crossedDocument :=
    (hlisted _ _ _).mpr ⟨by decide +kernel, rfl⟩
  have hplace : Operation.locator ⟨"/a", "get", .obj []⟩ = "paths./a.get" := by decide +kernel
  refine ⟨hkeys, hpaths, fun o ho => ?_⟩
  rw [← hplace]
  constructor
  · intro h
    by_contra hne
    exact hplaces o ho _ hget hne h
  · rintro rfl
    rfl

end SecurityScan
