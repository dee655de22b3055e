import SecurityScan.Proofs.ParsedYaml
import SecurityScan.Proofs.Parts
import SecurityScan.Proofs.Rereading
import SecurityScan.Proofs.WrittenPairs

namespace SecurityScan

open Decimal

/-!
# Entries and members

A mapping of any keys becomes an object, in which every key is a string.  Different keys can become
the same string, and then they share one member.

* `Yaml.keyTexts` and `Yaml.toJson_map_eq` — entries whose keys become different strings are all
  members;
* `Yaml.eq_of_keyText` — strings become different strings, and so do integers, booleans and null;
* `Yaml.KeepsEntries` and `Yaml.part_toJson` — a value in which no two keys share a member is all in
  its document;
* `Yaml.members_of_mapping` — the members that the entries of a mapping become.
-/

namespace Yaml

/-! ### The texts of keys -/

/-- The texts of the keys of a mapping, in their order. -/
def keyTexts (es : List (Yaml × Yaml)) : List String := es.map fun e => e.1.keyText

/-- The pairs of a key's text and a value's document, in their order. -/
def pairs (es : List (Yaml × Yaml)) : List (String × Json) :=
  es.map fun e => (e.1.keyText, e.2.toJson)

theorem keys_pairs (es : List (Yaml × Yaml)) : Members.keys (pairs es) = keyTexts es := by
  rw [Members.keys, pairs, List.map_map]
  rfl

theorem toJson_map (es : List (Yaml × Yaml)) :
    toJson (.map es) = .obj (Members.ofPairs (pairs es)) := by
  rw [toJson, toJsonEntries_eq_map, pairs]

theorem toJson_seq (vs : List Yaml) : toJson (.seq vs) = .arr (vs.map toJson) := by
  rw [toJson, toJsonItems_eq_map]

/-- Entries whose keys have different texts are all members. -/
theorem toJson_map_eq {es : List (Yaml × Yaml)} (h : (keyTexts es).Nodup) :
    toJson (.map es) = .obj (pairs es) := by
  rw [toJson_map, Members.ofPairs_of_uniqueKeys (by rwa [Members.UniqueKeys, keys_pairs])]

/-! ### Keys of one kind -/

/-- The text of an integer is the same as a key and in a document. -/
theorem toList_numberText_int (i : Int) : (numberText (.int i)).toList = (Number.int i).chars := by
  cases i with
  | ofNat n =>
    have hpos : ¬ (Int.ofNat n) < 0 := Int.not_lt.mpr (Int.natCast_nonneg n)
    rw [Number.chars, if_neg hpos]
    exact Nat.toList_repr
  | negSucc n =>
    rw [Number.chars, if_pos (Int.negSucc_lt_zero n)]
    show ("-" ++ Nat.repr (n + 1)).toList = _
    rw [String.toList_append, Nat.toList_repr]
    rfl

/-- Different integers have different texts. -/
theorem numberText_int_inj {i j : Int} (h : numberText (.int i) = numberText (.int j)) : i = j := by
  have hchars : (Number.int i).chars = (Number.int j).chars := by
    rw [← toList_numberText_int, ← toList_numberText_int, h]
  have habs : ∀ {m n : Nat}, digits m = digits n → m = n := by
    intro m n hdigits
    rw [← value_toDigits m, ← value_toDigits n]
    exact congrArg value hdigits
  -- a minus sign is no digit, so it tells the negative numbers from the others
  have hminus : ∀ m n, '-' :: digits m ≠ digits n := by
    intro m n heq
    have hmem : '-' ∈ digits n := heq ▸ List.mem_cons_self
    exact absurd ((isNumeral_toDigits n).2.1 _ hmem) (by decide)
  rw [Number.chars, Number.chars] at hchars
  split at hchars <;> split at hchars
  · have hsame := habs (List.cons.inj hchars).2
    omega
  · exact absurd hchars (hminus _ _)
  · exact absurd hchars.symm (hminus _ _)
  · have hsame := habs hchars
    omega

/-- The text of an integer starts with a sign or a digit, so it is no word. -/
theorem numberText_int_ne {w : String} {c : Char} {cs : List Char} (hw : w.toList = c :: cs)
    (hsign : c ≠ '-') (hdigit : c.isDigit = false) (i : Int) : numberText (.int i) ≠ w := by
  rintro rfl
  obtain ⟨d, ds, hds, hd⟩ := Json.exists_cons_of_chars i
  rw [toList_numberText_int, hds] at hw
  cases hw
  rcases hd with rfl | hd
  · exact hsign rfl
  · rw [hd] at hdigit
    cases hdigit

/-- The key is null, a boolean or an integer. -/
inductive IsAtom : Yaml → Prop where
  | null : IsAtom .null
  | bool (b : Bool) : IsAtom (.bool b)
  | int (i : Int) : IsAtom (.num (.int i))

/-- Two keys are both strings, or each of them is null, a boolean or an integer. -/
inductive SameKind : Yaml → Yaml → Prop where
  | strings (s t : String) : SameKind (.str s) (.str t)
  | atoms {a b : Yaml} : IsAtom a → IsAtom b → SameKind a b

/-- **Keys of one kind** that have the same text are equal. -/
theorem eq_of_keyText {a b : Yaml} (hkind : SameKind a b) (h : a.keyText = b.keyText) : a = b := by
  cases hkind with
  | strings s t => rw [show s = t from h]
  | atoms ha hb =>
    have hnull : ∀ i, numberText (.int i) ≠ "null" :=
      numberText_int_ne rfl (by decide : 'n' ≠ '-') (by decide)
    have htrue : ∀ i, numberText (.int i) ≠ "true" :=
      numberText_int_ne rfl (by decide : 't' ≠ '-') (by decide)
    have hfalse : ∀ i, numberText (.int i) ≠ "false" :=
      numberText_int_ne rfl (by decide : 'f' ≠ '-') (by decide)
    cases ha with
    | null =>
      cases hb with
      | null => rfl
      | bool b => cases b <;> exact absurd h (by decide)
      | int j => exact absurd h.symm (hnull j)
    | bool a =>
      cases hb with
      | null => cases a <;> exact absurd h (by decide)
      | bool b => cases a <;> cases b <;> first | rfl | exact absurd h (by decide)
      | int j =>
        cases a with
        | false => exact absurd h.symm (hfalse j)
        | true => exact absurd h.symm (htrue j)
    | int i =>
      cases hb with
      | null => exact absurd h (hnull i)
      | bool b =>
        cases b with
        | false => exact absurd h (hfalse i)
        | true => exact absurd h (htrue i)
      | int j => rw [numberText_int_inj h]

theorem same_self_of_sameKind {a b : Yaml} (h : SameKind a b) : a.same a = true := by
  cases h with
  | strings s t => simp [same]
  | atoms ha _ => cases ha <;> simp [same, sameNumber]

/-- Different keys of one kind have different texts. -/
theorem keyText_ne_of_same {a b : Yaml} (hsame : a.same b = false) (hkind : SameKind a b) :
    a.keyText ≠ b.keyText := by
  intro h
  rw [← eq_of_keyText hkind h, same_self_of_sameKind hkind] at hsame
  cases hsame

/-! ### Values and their documents -/

/-- No two keys of a mapping among the values in `v` have the same text. -/
def KeepsEntries (v : Yaml) : Prop := ∀ es, v.Holds (.map es) → (keyTexts es).Nodup

/-- **All values are kept.** Where no two keys share a member, the document of every value in a value
    stands in the document of that value. -/
theorem part_toJson {v w : Yaml} (hkeeps : v.KeepsEntries) (h : v.Holds w) :
    v.toJson.Part w.toJson := by
  induction h with
  | self => exact .self
  | @item vs v w hmem _ ih =>
    rw [toJson_seq]
    exact .item (List.mem_map_of_mem hmem) (ih fun es hes => hkeeps es (.item hmem hes))
  | @value es e w hmem _ ih =>
    -- all entries of the mapping are members, this one among them
    rw [toJson_map_eq (hkeeps es .self)]
    exact .member (List.mem_map_of_mem hmem) (ih fun es hes => hkeeps es (.value hmem hes))
  | tagged _ ih =>
    rw [toJson]
    exact ih fun es hes => hkeeps es (.tagged hes)

/-- **Entries and members.** Wherever a mapping stands in a value that was read, its keys are all
    different, and its document is an object.  The members have the texts of the keys, each where the
    first entry with the text stands, and the value of the last such entry.  There are as many
    members as entries exactly if the texts are all different, and then each entry is a member, in
    their order.  Two keys that are strings have different texts, and so have two keys that are
    integers, booleans or null.  If the texts are all different in each mapping among the values, the
    document of every value stands in the document of the whole. -/
theorem members_of_mapping {text : String} {v : Yaml} {es : List (Yaml × Yaml)}
    (hparse : parse? text = some v) (hpart : v.Part (.map es)) :
    DistinctKeys es ∧
    (∃ ms : Members, (Yaml.map es).toJson = .obj ms ∧ ListsOnce (keyTexts es) ms.keys ∧
      (∀ key, ms.get? key =
        ((es.filter fun e => e.1.keyText = key).getLast?).map fun e => e.2.toJson) ∧
      (ms.length = es.length ↔ (keyTexts es).Nodup) ∧
      ((keyTexts es).Nodup → ms = es.map fun e => (e.1.keyText, e.2.toJson))) ∧
    es.Pairwise (fun e f => SameKind e.1 f.1 → e.1.keyText ≠ f.1.keyText) ∧
    (v.KeepsEntries → ∀ w, v.Holds w → v.toJson.Part w.toJson) := by
  have hdistinct : DistinctKeys es := distinctKeys_of_parse? hparse hpart
  refine ⟨hdistinct, ⟨_, toJson_map es, ?_, fun key => ?_, ?_, fun hnodup => ?_⟩,
    hdistinct.imp keyText_ne_of_same, fun hkeeps w => part_toJson hkeeps⟩
  · rw [← keys_pairs]
    exact Members.listsOnce_keys_ofPairs (pairs es)
  · rw [Members.get?_ofPairs, pairs, List.filter_map, List.getLast?_map, Option.map_map]
    rfl
  · have hlen := Members.length_ofPairs_eq_iff (pairs es)
    rwa [Members.UniqueKeys, keys_pairs, pairs, List.length_map] at hlen
  · rw [← keys_pairs] at hnodup
    exact Members.ofPairs_of_uniqueKeys hnodup

/-- A mapping whose first two keys have the same text. -/
def statusEntries : List (Yaml × Yaml) :=
  [(.num (.int 200), .str "a"), (.str "200", .str "b"), (.bool true, .str "c")]

/-- A text with the mapping below a key. -/
def statusText : String := "responses:\n  200: a\n  '200': b\n  true: c"

theorem members_of_mapping_statusText :
    ∃ v, parse? statusText = some v ∧ v.Part (.map statusEntries) ∧ DistinctKeys statusEntries ∧
      ∃ ms : Members, (Yaml.map statusEntries).toJson = .obj ms ∧ ms.length ≠ statusEntries.length ∧
        ms.get? "200" = some (.str "b") ∧ ms.get? "true" = some (.str "c") := by
  have hparse : parse? statusText = some (.map [(.str "responses", .map statusEntries)]) := by
    decide +kernel
  have hpart : (Yaml.map [(.str "responses", .map statusEntries)]).Part (.map statusEntries) :=
    .value (List.mem_singleton_self _) .self
  obtain ⟨hdistinct, ⟨ms, hms, _, hget, hlen, _⟩, _⟩ := members_of_mapping hparse hpart
  refine ⟨_, hparse, hpart, hdistinct, ms, hms, fun h => ?_, ?_, ?_⟩
  · exact absurd (hlen.mp h) (by decide +kernel)
  · rw [hget]
    decide +kernel
  · rw [hget]
    decide +kernel

/-- **An entry that disappears.** Two different keys of a mapping that was read, one member. -/
theorem statusKeys_share_member :
    parse? "200: a\n'200': b" =
      some (.map [(.num (.int 200), .str "a"), (.str "200", .str "b")]) ∧
    (Yaml.num (.int 200)).same (.str "200") = false ∧
    (Yaml.map [(.num (.int 200), .str "a"), (.str "200", .str "b")]).toJson =
      .obj [("200", .str "b")] := by
  decide +kernel

end Yaml

end SecurityScan
