import SecurityScan.Config.Basic
import Mathlib.Data.List.DropRight

namespace SecurityScan

/-!
# Trimmed texts

What is left of a text without the blanks at its ends.

* `Text.stripEnds_eq_nil_iff` — nothing is left of a text if all of it goes;
* `Text.IsTrimmed` and `Text.isTrimmed_trim` — what is left neither starts nor ends with a blank;
* `Text.startsWith_trim` — a text that starts with a word still does, if the word itself neither
  starts nor ends with a blank;
* `nonblank_eq_some_iff` — what `nonblank` gives of a text is its trimmed form.
-/

namespace Text

variable {p : Char → Bool} {cs word : List Char}

theorem stripEnds_eq_rdropWhile (p : Char → Bool) (cs : List Char) :
    stripEnds p cs = (cs.dropWhile p).rdropWhile p := rfl

theorem stripEnds_eq_nil_iff : stripEnds p cs = [] ↔ ∀ c ∈ cs, p c = true := by
  rw [stripEnds_eq_rdropWhile, List.rdropWhile_eq_nil_iff]
  constructor
  · intro h
    by_contra hne
    rw [← List.dropWhile_eq_nil_iff] at hne
    exact absurd (h _ (List.head_mem hne)) (by simp [List.head_dropWhile_not p hne])
  · exact fun h c hc => h c ((List.dropWhile_sublist p).subset hc)

/-- What is left does not start with a character that goes. -/
theorem head?_stripEnds {c : Char} (hc : (stripEnds p cs).head? = some c) : p c = false := by
  have hprefix : stripEnds p cs <+: cs.dropWhile p := List.rdropWhile_prefix p _
  have hhead : (cs.dropWhile p).head? = some c := by
    obtain ⟨rest, hrest⟩ := hprefix
    rw [← hrest, List.head?_append, hc, Option.some_or]
  have hnot := List.head?_dropWhile_not p cs
  rwa [hhead] at hnot

/-- What is left does not end with a character that goes. -/
theorem getLast?_stripEnds {c : Char} (hc : (stripEnds p cs).getLast? = some c) : p c = false := by
  have hlast := List.head?_dropWhile_not p (cs.dropWhile p).reverse
  rw [stripEnds, List.getLast?_reverse] at hc
  rwa [hc] at hlast

/-- A word at the front that neither starts nor ends with a character that goes stays there. -/
theorem prefix_stripEnds (hhead : ∀ c ∈ word.head?, p c = false)
    (hlast : ∀ c ∈ word.getLast?, p c = false) (h : word <+: cs) : word <+: stripEnds p cs := by
  obtain ⟨rest, rfl⟩ := h
  by_cases hword : word = []
  · rw [hword]
    exact List.nil_prefix
  -- nothing goes at the front, and at the end at most what follows the word
  have hfront : (word ++ rest).dropWhile p = word ++ rest := by
    obtain ⟨c, word, rfl⟩ := List.exists_cons_of_ne_nil hword
    exact List.dropWhile_cons_of_neg (by simp [hhead c rfl])
  rw [stripEnds_eq_rdropWhile, hfront]
  clear hfront
  induction rest using List.reverseRecOn with
  | nil =>
    have hself : word.rdropWhile p = word := by
      refine List.rdropWhile_eq_self_iff.mpr fun hne => ?_
      rw [hlast _ (List.getLast?_eq_some_getLast hne)]
      exact Bool.false_ne_true
    rw [List.append_nil]
    exact ⟨[], by rw [List.append_nil, hself]⟩
  | append_singleton rest c ih =>
    rw [← List.append_assoc, List.rdropWhile_concat]
    split
    · exact ih
    · exact ⟨rest ++ [c], by simp⟩

/-- The text neither starts nor ends with a blank. -/
def IsTrimmed (s : String) : Prop :=
  (∀ c ∈ s.toList.head?, isBlank c = false) ∧ ∀ c ∈ s.toList.getLast?, isBlank c = false

instance (s : String) : Decidable (IsTrimmed s) :=
  decidable_of_iff
    (s.toList.head?.all (!isBlank ·) = true ∧ s.toList.getLast?.all (!isBlank ·) = true)
    (by simp [IsTrimmed, Option.all_eq_true])

theorem isTrimmed_trim (s : String) : IsTrimmed (trim s) := by
  rw [IsTrimmed, trim, String.toList_ofList]
  exact ⟨fun _ => head?_stripEnds, fun _ => getLast?_stripEnds⟩

/-- A word that is trimmed stays at the start of a text that is trimmed. -/
theorem startsWith_trim {s word : String} (hword : IsTrimmed word) (h : s.startsWith word = true) :
    (trim s).startsWith word = true := by
  rw [String.startsWith_string_iff] at h ⊢
  rw [trim, String.toList_ofList]
  exact prefix_stripEnds hword.1 hword.2 h

end Text

theorem nonblank_eq_some_iff {s t : String} : nonblank s = some t ↔ t = Text.trim s ∧ t ≠ "" := by
  unfold nonblank
  by_cases h : Text.trim s = ""
  · have hempty : (Text.trim s).isEmpty = true := String.isEmpty_iff.mpr h
    rw [if_pos hempty]
    exact iff_of_false (by simp) fun ht => ht.2 (ht.1.trans h)
  · have hempty : ¬ (Text.trim s).isEmpty = true := fun he => h (String.isEmpty_iff.mp he)
    rw [if_neg hempty, Option.some_inj]
    exact ⟨fun ht => ⟨ht.symm, ht ▸ h⟩, fun ht => ht.1.symm⟩

end SecurityScan
