import SecurityScan.Specification.Validation
import SecurityScan.Proofs.UniqueKeys

namespace SecurityScan.Specification

/-!
# Loaded and valid documents

The checks of the validator as statements about the document, and the evaluation of both on given
texts.

* `bind_eq_ok` — a sequence of checks passes if each of them passes;
* `checkPathItems_eq_ok_iff` and `checkReferences_eq_ok_iff` — the checks that go through a list;
* `validate_eq_ok_iff` — a document is valid if it passes all checks;
* `validate_of_paths` — a document with paths is valid if it passes them, in whatever order its
  paths are gone through;
* `load_ofList` — a text that reads as JSON is loaded as JSON.
-/

instance decidableEqExcept {ε α : Type} [DecidableEq ε] [DecidableEq α] :
    DecidableEq (Except ε α)
  | .ok a, .ok b => decidable_of_iff (a = b) (by rw [Except.ok.injEq])
  | .error e, .error e' => decidable_of_iff (e = e') (by rw [Except.error.injEq])
  | .ok _, .error _ => .isFalse (by rintro ⟨⟩)
  | .error _, .ok _ => .isFalse (by rintro ⟨⟩)

deriving instance DecidableEq for Json.Frame, Json.Progress

theorem bind_eq_ok {ε α β : Type} {x : Except ε α} {f : α → Except ε β} {b : β} :
    (x >>= f) = .ok b ↔ ∃ a, x = .ok a ∧ f a = .ok b := by
  cases x with
  | error e => simp [bind, Except.bind]
  | ok a => simp [bind, Except.bind]

theorem checkPathItems_eq_ok_iff {es : List (String × Json)} :
    checkPathItems es = .ok () ↔ ∀ e ∈ es, e.1.startsWith "/" = true ∧ e.2.isObj = true := by
  induction es with
  | nil => simp [checkPathItems]
  | cons e es ih =>
    rw [checkPathItems, List.forall_mem_cons, ← ih]
    by_cases hslash : e.1.startsWith "/" = true
    · by_cases hobj : e.2.isObj = true
      · simp [hslash, hobj]
      · simp [hslash, hobj]
    · simp [hslash]

theorem checkReferences_eq_ok_iff {doc : Json} {rs : List String} :
    checkReferences doc rs = .ok () ↔ ∀ r ∈ rs, ∃ target, targetOf doc r = .ok target := by
  induction rs with
  | nil => simp [checkReferences]
  | cons r rs ih =>
    rw [checkReferences, List.forall_mem_cons, ← ih]
    cases ht : targetOf doc r with
    | error why => simp
    | ok target => simp

/-- **Validity.** A document is valid if it is an object that states a supported version, has the
    information and the paths that the version asks for, refers only to places of its own, and has
    the shape of the model if its version has one. -/
theorem validate_eq_ok_iff {doc : Json} :
    validate doc = .ok () ↔
      doc.isObj = true ∧ ∃ version, versionOf doc = .ok version ∧ checkInfo doc = .ok () ∧
        checkPaths doc version = .ok () ∧
        (∀ r ∈ references doc, ∃ target, targetOf doc r = .ok target) ∧
        (version = .openApi31 → Model.isSpecification doc = true) := by
  -- the last check is made only of documents of version 3.1
  have hmodel : ∀ version, (if (decide (version = Version.openApi31) &&
      !Model.isSpecification doc) = true then throw Violation.notOfModel else pure ()
        : Except Violation Unit) = .ok () ↔
      (version = .openApi31 → Model.isSpecification doc = true) := by
    intro version
    by_cases h : version = .openApi31 ∧ Model.isSpecification doc = false
    · simp [h, throw, throwThe, MonadExceptOf.throw]
    · rw [if_neg (by simpa using h)]
      simpa [pure, Except.pure] using h
  unfold validate
  cases hobj : doc.isObj with
  | false => simp [throw, throwThe, MonadExceptOf.throw, bind_eq_ok]
  | true =>
    simp only [Bool.not_true, Bool.false_eq_true, if_false, bind_eq_ok, hmodel, true_and]
    constructor
    · rintro ⟨version, hversion, _, hinfo, _, hpaths, _, hrefs, h⟩
      exact ⟨version, hversion, hinfo, hpaths, checkReferences_eq_ok_iff.mp hrefs, h⟩
    · rintro ⟨version, hversion, hinfo, hpaths, hrefs, h⟩
      exact ⟨version, hversion, (), hinfo, (), hpaths, (), checkReferences_eq_ok_iff.mpr hrefs, h⟩

/-- The paths may be checked in the order in which they are written. -/
theorem validate_of_paths {doc : Json} (version : Version) {ms : Members}
    (hversion : versionOf doc = .ok version) (hmodel : version ≠ .openApi31)
    (hinfo : checkInfo doc = .ok ()) (hpaths : doc.get? "paths" = some (.obj ms))
    (hitems : ∀ e ∈ ms, e.1.startsWith "/" = true ∧ e.2.isObj = true)
    (hreferences : checkReferences doc (references doc) = .ok ()) : validate doc = .ok () := by
  have hobj : doc.isObj = true := by
    obtain ⟨_, rfl, _⟩ := Json.eq_obj_of_get? hpaths
    rfl
  have hcheck : checkPaths doc version = .ok () := by
    rw [checkPaths, hpaths]
    exact checkPathItems_eq_ok_iff.mpr fun e he => hitems e (Json.mem_entries.mp he)
  exact validate_eq_ok_iff.mpr ⟨hobj, version, hversion, hinfo, hcheck,
    checkReferences_eq_ok_iff.mp hreferences, fun h => absurd h hmodel⟩

/-- What reads as JSON is not blank and does not count as YAML. -/
theorem load_ofList {cs : List Char} {v : Json} (hblank : Text.stripEnds Text.isBlank cs ≠ [])
    (hread : Json.Progress.read cs = (.complete v [], true)) :
    load (String.ofList cs) = .ok v.merged := by
  have htrim : (Text.trim (String.ofList cs)).isEmpty = false := by
    rw [Text.trim, String.toList_ofList]
    simpa using hblank
  have hload : Json.load? (String.ofList cs) = some v.merged := by
    rw [Json.load?, Json.parse?, String.toList_ofList, hread, Option.map_some]
  rw [load, htrim, hload]
  rfl

end SecurityScan.Specification
