import SecurityScan.Json.Printer
import SecurityScan.Text.Search

namespace SecurityScan

open Text

/-!
# What a search in a compact text finds

Searching the compact text of a value for a word misses no key and no string of the value: neither
the quotes around it nor the escapes in it hide a mention.

* `occurs_iff` — a word occurs in a text if it is an infix of it;
* `Json.texts` — the keys and strings anywhere in a value;
* `quoted_infix_chars` — each of them stands in the compact text, in quotes;
* `mentions_escape` — escaping hides no mention of a word without characters that are escaped;
* `mentions_chars_of_mem` — so what a key or string mentions, the compact text mentions.
-/

/-! ### Occurrences -/

theorem occurs_iff (word cs : List Char) : occurs word cs = true ↔ word <:+: cs := by
  induction cs with
  | nil => simp [occurs]
  | cons c cs ih =>
    rw [occurs, Bool.or_eq_true, ih, List.isPrefixOf_iff_prefix, List.infix_cons_iff]

theorem foldCase_append (as bs : List Char) : foldCase (as ++ bs) = foldCase as ++ foldCase bs :=
  List.flatMap_append

/-- A text mentions what a part of it mentions. -/
theorem mentions_of_infix {as bs : List Char} {word : String} (h : as <:+: bs)
    (hm : mentions as word = true) : mentions bs word = true := by
  obtain ⟨l, r, rfl⟩ := h
  rw [mentions, occurs_iff] at hm ⊢
  rw [foldCase_append, foldCase_append]
  exact hm.trans (List.infix_append _ _ _)

/-- A word at the front does not reach across a character that it does not hold. -/
theorem prefix_of_prefix_append_cons {word as bs : List Char} {c : Char} (hc : c ∉ word)
    (h : word <+: as ++ c :: bs) : word <+: as := by
  have has : as ++ [c] <+: as ++ c :: bs := ⟨bs, by simp⟩
  rcases List.prefix_or_prefix_of_prefix h has with hle | hge
  · rcases List.prefix_concat_iff.mp hle with rfl | hle
    · exact absurd (by simp) hc
    · exact hle
  · exact absurd (hge.subset (by simp)) hc

/-- A word does not reach across a character that it does not hold. -/
theorem infix_of_infix_append_cons {word as bs : List Char} {c : Char} (hc : c ∉ word)
    (h : word <:+: as ++ c :: bs) : word <:+: as ∨ word <:+: bs := by
  induction as with
  | nil =>
    rcases List.infix_cons_iff.mp h with hw | hw
    · exact .inl (@prefix_of_prefix_append_cons word [] bs c hc hw).isInfix
    · exact .inr hw
  | cons a as ih =>
    rcases List.infix_cons_iff.mp h with hw | hw
    · exact .inl (@prefix_of_prefix_append_cons word (a :: as) bs c hc hw).isInfix
    · rcases ih hw with hw | hw
      · exact .inl (hw.trans (List.suffix_cons a as).isInfix)
      · exact .inr hw

/-! ### Escapes -/

/-- Characters below the first upper case letter have no case. -/
theorem foldChar_of_lt {c : Char} (h : c.toNat < 'A'.toNat) : foldChar c = [c] := by
  have hne : ∀ d : Char, 'A'.toNat ≤ d.toNat → c ≠ d := by
    rintro d hd rfl
    exact absurd h (Nat.not_lt.mpr hd)
  have hlower : c.toLower = c := dif_neg fun hupper => absurd h (Nat.not_lt.mpr hupper.1)
  rw [foldChar, if_neg (hne _ (by decide)), if_neg (hne _ (by decide)), hlower]

/-- A character that is escaped has no case. -/
theorem foldChar_of_escaped {c : Char} (h : Json.escapeChar c ≠ [c]) : foldChar c = [c] := by
  by_cases hbackslash : c = '\\'
  · rw [hbackslash]; rfl
  · refine foldChar_of_lt (Nat.lt_of_not_le fun hle => h ?_)
    have hne : ∀ d : Char, d.toNat < 'A'.toNat → c ≠ d := by
      rintro d hd rfl
      exact absurd hd (Nat.not_lt.mpr hle)
    have hge : ¬ c.toNat < 0x20 := fun hlt => absurd (Nat.lt_of_le_of_lt hle hlt) (by decide)
    rw [Json.escapeChar, if_neg (hne _ (by decide)), if_neg hbackslash, if_neg (hne _ (by decide)),
      if_neg (hne _ (by decide)), if_neg (hne _ (by decide)), if_neg (hne _ (by decide)),
      if_neg (hne _ (by decide)), if_neg hge]

/-- **Escapes hide nothing.** What a text mentions, its escaped form mentions, if no character of
    the word is escaped. -/
theorem mentions_escape {cs : List Char} {word : String}
    (hword : ∀ c ∈ word.toList, Json.escapeChar c = [c]) (h : mentions cs word = true) :
    mentions (Json.escape cs) word = true := by
  rw [mentions, occurs_iff] at h ⊢
  -- the part of the text already read is kept in front
  have hfront : ∀ front, word.toList <:+: front ++ foldCase cs →
      word.toList <:+: front ++ foldCase (Json.escape cs) := by
    clear h
    induction cs with
    | nil => exact fun front hw => hw
    | cons c cs ih =>
      intro front hw
      have hsplit : foldCase (c :: cs) = foldChar c ++ foldCase cs := List.flatMap_cons
      have hescape : Json.escape (c :: cs) = Json.escapeChar c ++ Json.escape cs :=
        List.flatMap_cons
      rw [hescape, foldCase_append]
      rw [hsplit] at hw
      by_cases hc : Json.escapeChar c = [c]
      · have hone : foldCase [c] = foldChar c := List.append_nil _
        rw [hc, hone, ← List.append_assoc]
        exact ih _ (by rwa [List.append_assoc])
      · rw [foldChar_of_escaped hc] at hw
        rcases infix_of_infix_append_cons (fun hmem => hc (hword c hmem)) hw with hw | hw
        · exact hw.trans (List.prefix_append _ _).isInfix
        · exact (ih [] hw).trans ⟨front ++ foldCase (Json.escapeChar c), [], by simp⟩
  exact hfront [] h

/-! ### Keys and strings in the compact text -/

namespace Json

mutual

/-- The keys and strings anywhere in a value, in the order of the text. -/
def texts : Json → List String
  | .str s => [s]
  | .arr vs => textsOfItems vs
  | .obj ms => textsOfMembers ms
  | _ => []

/-- The keys and strings in the items. -/
def textsOfItems : List Json → List String
  | [] => []
  | v :: vs => texts v ++ textsOfItems vs

/-- The members' keys and the keys and strings in their values. -/
def textsOfMembers : List (String × Json) → List String
  | [] => []
  | (k, v) :: ms => k :: texts v ++ textsOfMembers ms

end

theorem mem_textsOfItems {vs : List Json} {t : String} :
    t ∈ textsOfItems vs ↔ ∃ v ∈ vs, t ∈ v.texts := by
  induction vs with
  | nil => simp [textsOfItems]
  | cons v vs ih => simp [textsOfItems, ih]

theorem mem_textsOfMembers {ms : Members} {t : String} :
    t ∈ textsOfMembers ms ↔ ∃ p ∈ ms, t = p.1 ∨ t ∈ p.2.texts := by
  induction ms with
  | nil => simp [textsOfMembers]
  | cons p ms ih => simp [textsOfMembers, ih, or_assoc]

mutual

/-- Every key and string of a value stands in its compact text, in quotes. -/
theorem quoted_infix_chars {t : String} : ∀ (v : Json), t ∈ v.texts → quoted t <:+: v.chars
  | .str s, h => by
    rw [texts, List.mem_singleton] at h
    rw [h]
    show quoted s <:+: quoted s
    exact List.infix_refl _
  | .arr [], h => by simp [texts, textsOfItems] at h
  | .arr (v :: vs), h => by
    rw [chars]
    rw [texts, textsOfItems, List.mem_append] at h
    rcases h with h | h
    · exact (quoted_infix_chars v h).trans ⟨['['], charsItems vs, by simp⟩
    · exact (quoted_infix_charsItems vs h).trans (List.suffix_append _ _).isInfix
  | .obj [], h => by simp [texts, textsOfMembers] at h
  | .obj ((k, v) :: ms), h => by
    rw [chars]
    rw [texts, textsOfMembers, List.cons_append, List.mem_cons, List.mem_append] at h
    rcases h with rfl | h | h
    · exact ⟨['\x7b'], ':' :: chars v ++ charsMembers ms, by simp⟩
    · exact (quoted_infix_chars v h).trans
        ⟨'\x7b' :: quoted k ++ [':'], charsMembers ms, by simp⟩
    · exact (quoted_infix_charsMembers ms h).trans (List.suffix_append _ _).isInfix
  | .null, h | .bool _, h | .num _, h => by simp [texts] at h

theorem quoted_infix_charsItems {t : String} :
    ∀ (vs : List Json), t ∈ textsOfItems vs → quoted t <:+: charsItems vs
  | [], h => by simp [textsOfItems] at h
  | v :: vs, h => by
    rw [charsItems]
    rw [textsOfItems, List.mem_append] at h
    rcases h with h | h
    · exact (quoted_infix_chars v h).trans ⟨[','], charsItems vs, by simp⟩
    · exact (quoted_infix_charsItems vs h).trans (List.suffix_append _ _).isInfix

theorem quoted_infix_charsMembers {t : String} :
    ∀ (ms : List (String × Json)), t ∈ textsOfMembers ms → quoted t <:+: charsMembers ms
  | [], h => by simp [textsOfMembers] at h
  | (k, v) :: ms, h => by
    rw [charsMembers]
    rw [textsOfMembers, List.cons_append, List.mem_cons, List.mem_append] at h
    rcases h with rfl | h | h
    · exact ⟨[','], ':' :: chars v ++ charsMembers ms, by simp⟩
    · exact (quoted_infix_chars v h).trans
        ⟨',' :: quoted k ++ [':'], charsMembers ms, by simp⟩
    · exact (quoted_infix_charsMembers ms h).trans (List.suffix_append _ _).isInfix

end

/-- **No mention is missed.** What a key or string of a value mentions, its compact text
    mentions. -/
theorem mentions_chars_of_mem {v : Json} {t word : String} (ht : t ∈ v.texts)
    (hword : ∀ c ∈ word.toList, escapeChar c = [c]) (h : mentions t.toList word = true) :
    mentions v.chars word = true := by
  have hquoted : escape t.toList <:+: quoted t := ⟨['"'], ['"'], by simp [quoted]⟩
  exact mentions_of_infix (hquoted.trans (quoted_infix_chars v ht)) (mentions_escape hword h)

end Json

end SecurityScan
