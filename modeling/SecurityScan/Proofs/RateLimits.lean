import SecurityScan.Proofs.Omission
import SecurityScan.Proofs.StringSearch

namespace SecurityScan

open Json Text

/-!
# Falsy declarations of rate limits

A declaration that is falsy should count as none.  The search through the text of the document sees
the keys of the declarations too, and the key of the header holds the word that is looked for.

* `isLimited_iff` — what makes a document limited: one of the two declarations, or a key or string
  that mentions the word;
* `eq_empty_of_mem_texts` — a falsy value holds no text but the empty one;
* `isLimited_without_parameter` — so leaving out a falsy parameter changes nothing;
* `isLimited_of_header` — the key of the header alone makes a document limited;
* `check_without_falsy` — what leaving out either declaration does to the findings;
* `falsyHeader_counts` — a falsy header counts as a declaration.
-/

/-- A falsy value holds no key and no string but the empty one. -/
theorem eq_empty_of_mem_texts {v : Json} (hv : v.isTruthy = false) {t : String} (ht : t ∈ v.texts) :
    t = "" := by
  cases v with
  | null | bool | num => simp [texts] at ht
  | str s =>
    rw [texts, List.mem_singleton] at ht
    rw [ht]
    simpa [isTruthy] using hv
  | arr | obj => cases hv

namespace Rule.RateLimiting

/-- Where the header is declared. -/
def headerPlace : List String := ["components", "headers", "X-RateLimit-Limit"]

/-- Where the parameter is declared. -/
def parameterPlace : List String := ["components", "parameters", "rate-limit"]

/-- A key or string of the document mentions the word that is looked for, as the text of the
    document shows it. -/
def Mentioned (doc : Json) : Prop := ∃ s ∈ doc.texts, mentions (escape s.toList) keyword = true

theorem mentioned_iff {doc : Json} : mentions doc.chars keyword = true ↔ Mentioned doc := by
  have hkeyword : Searchable keyword.toList := searchable_of_mem List.mem_cons_self
  constructor
  · exact exists_mentions_escape hkeyword
  · rintro ⟨s, hs, hm⟩
    exact mentions_chars_of_escape hs hm

/-- The three ways to limit rates. -/
theorem isLimited_iff {doc : Json} : isLimited doc = true ↔
    declared (doc.at? headerPlace) = true ∨ declared (doc.at? parameterPlace) = true ∨
      Mentioned doc := by
  rw [← mentioned_iff, isLimited, Bool.or_eq_true, Bool.or_eq_true, or_assoc]
  rfl

theorem check_eq_nil_iff {doc : Json} : check doc = [] ↔ isLimited doc = true := by
  unfold check
  cases isLimited doc <;> simp

theorem check_congr {doc doc' : Json} (h : isLimited doc' = true ↔ isLimited doc = true) :
    check doc' = check doc := by
  unfold check
  rw [Bool.eq_iff_iff.mpr h]

/-! ### The parameter -/

/-- **A falsy parameter counts as none.** Neither its key nor its value mentions the word. -/
theorem isLimited_without_parameter {doc w : Json} (hdoc : doc.UniqueKeys)
    (hw : doc.at? parameterPlace = some w) (hfalsy : w.isTruthy = false) :
    isLimited (doc.without (· == parameterPlace)) = true ↔ isLimited doc = true := by
  have hheader : (doc.without (· == parameterPlace)).at? headerPlace = doc.at? headerPlace :=
    at?_without (by decide) (by decide) doc
  have hnone : declared (doc.at? parameterPlace) = false := by
    rw [hw]
    exact hfalsy
  have hgone : (doc.without (· == parameterPlace)).at? parameterPlace = none :=
    at?_without_self (by decide) doc
  have hmentioned : Mentioned (doc.without (· == parameterPlace)) ↔ Mentioned doc := by
    constructor
    · rintro ⟨s, hs, hm⟩
      exact ⟨s, texts_without_subset _ doc hs, hm⟩
    · rintro ⟨s, hs, hm⟩
      rcases mem_texts_without hdoc hs with hs | hkey | ⟨u, hu, hs⟩
      · exact ⟨s, hs, hm⟩
      · -- the key of the parameter has a hyphen in the word
        have hs : "rate-limit" = s := Option.some.inj hkey
        have hsilent : mentions (escape "rate-limit".toList) keyword = false := by decide +kernel
        rw [← hs, hsilent] at hm
        cases hm
      · rw [hw, Option.some.injEq] at hu
        rw [← hu] at hs
        have hsilent : mentions (escape "".toList) keyword = false := by decide +kernel
        rw [eq_empty_of_mem_texts hfalsy hs, hsilent] at hm
        cases hm
  rw [isLimited_iff, isLimited_iff, hheader, hgone, hnone, hmentioned]
  rfl

/-! ### The header -/

/-- The key of the header mentions the word, whatever stands under it. -/
theorem isLimited_of_header {doc w : Json} (hw : doc.at? headerPlace = some w) :
    isLimited doc = true := by
  have hkey : "X-RateLimit-Limit" ∈ doc.texts := mem_texts_of_at? hw rfl
  exact isLimited_iff.mpr (.inr (.inr ⟨_, hkey, by decide +kernel⟩))

/-- Without the header, a document is limited by the parameter or by a mention. -/
theorem isLimited_without_header {doc : Json} :
    isLimited (doc.without (· == headerPlace)) = true ↔
      declared (doc.at? parameterPlace) = true ∨ Mentioned (doc.without (· == headerPlace)) := by
  have hgone : (doc.without (· == headerPlace)).at? headerPlace = none :=
    at?_without_self (by decide) doc
  have hparameter :
      (doc.without (· == headerPlace)).at? parameterPlace = doc.at? parameterPlace :=
    at?_without (by decide) (by decide) doc
  rw [isLimited_iff, hgone, hparameter]
  simp [declared]

/-- **Declarations left out.** Leaving out a falsy parameter does not change the findings.  A header
    alone leaves no finding, whatever its value, so leaving it out keeps the findings exactly if the
    document has a truthy parameter or mentions the word elsewhere. -/
theorem check_without_falsy {doc : Json} (hdoc : doc.UniqueKeys) :
    (∀ w, doc.at? parameterPlace = some w → w.isTruthy = false →
      check (doc.without (· == parameterPlace)) = check doc) ∧
    ∀ w, doc.at? headerPlace = some w → check doc = [] ∧
      (check (doc.without (· == headerPlace)) = check doc ↔
        declared (doc.at? parameterPlace) = true ∨
          Mentioned (doc.without (· == headerPlace))) := by
  constructor
  · intro w hw hfalsy
    exact check_congr (isLimited_without_parameter hdoc hw hfalsy)
  · intro w hw
    have hnone : check doc = [] := check_eq_nil_iff.mpr (isLimited_of_header hw)
    refine ⟨hnone, ?_⟩
    rw [hnone, check_eq_nil_iff]
    exact isLimited_without_header

/-- A document with both declarations, empty. -/
def hollowDeclarations : Json := .obj [
  ("components", .obj [
    ("headers", .obj [("X-RateLimit-Limit", .num (.int 0))]),
    ("parameters", .obj [("rate-limit", .str "")])])]

theorem check_without_falsy_hollow :
    hollowDeclarations.UniqueKeys ∧
    (hollowDeclarations.at? parameterPlace = some (.str "") ∧
      check (hollowDeclarations.without (· == parameterPlace)) = check hollowDeclarations) ∧
    hollowDeclarations.at? headerPlace = some (.num (.int 0)) ∧ check hollowDeclarations = [] := by
  have hkeys : hollowDeclarations.UniqueKeys := by
    simp [hollowDeclarations, Json.UniqueKeys, UniqueKeysMembers, Members.UniqueKeys, Members.keys]
  have hparameter : hollowDeclarations.at? parameterPlace = some (.str "") := by decide +kernel
  have hheader : hollowDeclarations.at? headerPlace = some (.num (.int 0)) := by decide +kernel
  exact ⟨hkeys, ⟨hparameter, (check_without_falsy hkeys).1 _ hparameter (by decide +kernel)⟩,
    hheader, ((check_without_falsy hkeys).2 _ hheader).1⟩

/-- A document with a header that is null. -/
def falsyHeader : Json := .obj [
  ("components", .obj [("headers", .obj [("X-RateLimit-Limit", .null)])])]

/-- **A falsy header counts as a declaration.** The document with a header that is null has no
    finding, and the one without the header has one. -/
theorem falsyHeader_counts :
    falsyHeader.at? headerPlace = some .null ∧ Json.null.isTruthy = false ∧
      check falsyHeader = [] ∧ check (falsyHeader.without (· == headerPlace)) = [unlimited] := by
  decide +kernel

end Rule.RateLimiting

end SecurityScan
