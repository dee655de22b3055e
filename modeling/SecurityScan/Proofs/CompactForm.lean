import SecurityScan.Proofs.Integers
import SecurityScan.Proofs.Trimming
import SecurityScan.Proofs.Validity
import SecurityScan.Proofs.WrittenPairs

namespace SecurityScan

open Specification

/-!
# Documents and their compact texts

A document that has been loaded, from either format, is the document of its own compact text.

* `Json.merged_of_uniqueKeys` — where no key is repeated there is nothing to settle;
* `Json.exists_not_blank` — a compact text is not blank;
* `Specification.load_compact` — a loaded document whose numbers are integers is read back from its
  compact text, and a scan of either text has the same answer.
-/

/-! ### Nothing to settle -/

namespace Json

mutual

/-- A value without repeated keys is settled. -/
theorem merged_of_uniqueKeys : ∀ v : Json, v.UniqueKeys → v.merged = v
  | .obj ms, h => by
    rw [UniqueKeys] at h
    rw [merged, mergedMembers_of_uniqueKeys ms h.2, Members.ofPairs_of_uniqueKeys h.1]
  | .arr vs, h => by
    rw [UniqueKeys] at h
    rw [merged, mergedItems_of_uniqueKeys vs h]
  | .null, _ | .bool _, _ | .num _, _ | .str _, _ => rfl

theorem mergedItems_of_uniqueKeys : ∀ vs : List Json, UniqueKeysItems vs → mergedItems vs = vs
  | [], _ => rfl
  | v :: vs, h => by
    rw [mergedItems, merged_of_uniqueKeys v h.1, mergedItems_of_uniqueKeys vs h.2]

theorem mergedMembers_of_uniqueKeys :
    ∀ ms : List (String × Json), UniqueKeysMembers ms → mergedMembers ms = ms
  | [], _ => rfl
  | (k, v) :: ms, h => by
    rw [mergedMembers, merged_of_uniqueKeys v h.1, mergedMembers_of_uniqueKeys ms h.2]

end

/-- No value has a blank text: every compact text starts with a character that is visible. -/
theorem exists_not_blank {v : Json} (hv : v.Integral) : ∃ c ∈ v.chars, Text.isBlank c = false := by
  have hhead : ∀ {c : Char} {cs : List Char}, v.chars = c :: cs → Text.isBlank c = false →
      ∃ c ∈ v.chars, Text.isBlank c = false :=
    fun hcs hc => ⟨_, hcs ▸ List.mem_cons_self, hc⟩
  cases v with
  | null => exact hhead rfl (by decide)
  | bool b => cases b <;> exact hhead rfl (by decide)
  | num n =>
    cases n with
    | float x => exact absurd (hv (.float x) (by simp [numbers])).1 (by simp [Number.isInt])
    | int i =>
      obtain ⟨c, cs, hcs, hc⟩ := exists_cons_of_chars i
      refine hhead hcs ?_
      rcases hc with rfl | hc
      · decide
      · have hrange := Char.isDigit_iff_toNat.mp hc
        have hzero : '0'.toNat = 48 := rfl
        have hnine : '9'.toNat = 57 := rfl
        simp only [Text.isBlank, Bool.or_eq_false_iff, Bool.and_eq_false_iff,
          decide_eq_false_iff_not, beq_eq_false_iff_ne]
        omega
  | str s => exact hhead rfl (by decide)
  | arr vs => cases vs <;> exact hhead rfl (by decide)
  | obj ms => cases ms <;> exact hhead rfl (by decide)

end Json

/-! ### Loading the compact text -/

/-- The answer of a scan depends on the text through its document only. -/
theorem Scanner.scan_congr {ε : Type} (s : Scanner ε) {text text' : String}
    (h : load text = load text') : s.scan text = s.scan text' := by
  rw [Scanner.scan, Scanner.scan, Scanner.scanLogged, Scanner.scanLogged, h]

namespace Specification

/-- **A loaded document survives its compact text.** If its numbers are integers and the reader
    allows its nesting, the compact text is the JSON of that document, loading gives it back, and
    scanning the compact text instead of the text that it was loaded from changes no answer. -/
theorem load_compact {text : String} {doc : Json} (hload : load text = .ok doc)
    (hint : ∀ n ∈ doc.numbers, n.isInt = true) (hdepth : doc.depth ≤ Json.maxOpen) :
    Json.parse? doc.compact = some doc ∧ load doc.compact = .ok doc ∧
      ∀ {ε : Type} (s : Scanner ε), s.scan doc.compact = s.scan text := by
  have hintegral : doc.Integral := fun n hn => ⟨hint n hn, load_fits hload n hn⟩
  have hmerged : doc.merged = doc := Json.merged_of_uniqueKeys doc (load_uniqueKeys hload)
  have hvisible : Text.stripEnds Text.isBlank doc.chars ≠ [] := by
    obtain ⟨c, hc, hblank⟩ := Json.exists_not_blank hintegral
    exact fun h => Bool.false_ne_true (hblank ▸ Text.stripEnds_eq_nil_iff.mp h c hc)
  have hback : load doc.compact = .ok doc := by
    rw [Json.compact, load_ofList hvisible (Json.read_chars hintegral hdepth), hmerged]
  exact ⟨Json.parse?_compact hintegral hdepth, hback,
    fun s => s.scan_congr (hback.trans hload.symm)⟩

/-- A text that is no JSON, with numbers at both ends of the range. -/
def boundsText : String :=
  "1: [0x10, -9223372036854775808, 18446744073709551615]\n'b': [~, \"\\a\\\"é\"]"

/-- Its document. -/
def boundsDocument : Json := .obj [
  ("1", .arr [.num (.int 16), .num (.int (-9223372036854775808)),
    .num (.int 18446744073709551615)]),
  ("b", .arr [.null, .str "\x07\"é"])]

theorem load_compact_bounds :
    load boundsText = .ok boundsDocument ∧
    (∀ n ∈ boundsDocument.numbers, n.isInt = true) ∧ boundsDocument.depth ≤ Json.maxOpen ∧
    boundsDocument.compact ≠ boundsText ∧ load boundsDocument.compact = .ok boundsDocument ∧
    (scannerFor {}).scan boundsDocument.compact = (scannerFor {}).scan boundsText := by
  have hload : load boundsText = .ok boundsDocument := by decide +kernel
  have hint : ∀ n ∈ boundsDocument.numbers, n.isInt = true := by decide
  have hdepth : boundsDocument.depth ≤ Json.maxOpen := by decide
  obtain ⟨_, hback, hscan⟩ := load_compact hload hint hdepth
  exact ⟨hload, hint, hdepth, by decide +kernel, hback, hscan _⟩

end Specification

end SecurityScan
