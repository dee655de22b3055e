import SecurityScan.Specification.Pointer
import SecurityScan.Proofs.Numeral

namespace SecurityScan

open Decimal Text

/-!
# What pointers lead to

The reading of a pointer is the one that RFC 6901 describes.

* `itemIndex?_eq_some_iff` — an item is named by the numeral of its number, and by nothing else;
* `unescape_eq` — a step is its token with `~1` replaced everywhere and `~0` replaced after that;
* `Leads` — keys lead from a value to one inside it;
* `Locates` — a text of tokens, each behind a slash, leads there;
* `pointer?_eq_some_iff` — looking up a text finds exactly what the text locates.
-/

/-! ### Steps -/

/-- An item is named by the numeral of its number. -/
theorem itemIndex?_eq_some_iff {step : String} {n : Nat} :
    itemIndex? step = some n ↔ step = toString n := by
  rw [eq_toString_iff, ← isNumeral_iff, itemIndex?]
  simp

/-- A token with its escapes replaced, those of slashes first. -/
def Pointer.plain (token : List Char) : List Char :=
  replaceAll ['~', '0'] ['~'] (replaceAll ['~', '1'] ['/'] token)

/-- Replacing the escapes of slashes brings no zero to the front. -/
theorem exists_cons_of_replaceAll {cs rest : List Char}
    (h : replaceAll ['~', '1'] ['/'] cs = '0' :: rest) : ∃ more, cs = '0' :: more := by
  cases cs with
  | nil => simp [replaceAll_nil] at h
  | cons c cs =>
    by_cases hword : ['~', '1'] <+: c :: cs
    · obtain ⟨more, hmore⟩ := hword
      rw [← hmore, replaceAll_append (by decide)] at h
      simp at h
    · rw [replaceAll_cons_of_not hword] at h
      exact ⟨cs, by rw [(List.cons.inj h).1]⟩

/-- **Escapes.** Going through the token once gives what the two replacements give. -/
theorem unescape_eq (token : List Char) : Pointer.unescape token = Pointer.plain token := by
  induction token using Pointer.unescape.induct with
  | case1 cs ih =>
    have hslash : replaceAll ['~', '1'] ['/'] ('~' :: '1' :: cs) =
        '/' :: replaceAll ['~', '1'] ['/'] cs := replaceAll_append (by decide) _ cs
    rw [Pointer.unescape, ih, Pointer.plain, Pointer.plain, hslash,
      replaceAll_cons_of_not (by simp)]
  | case2 cs ih =>
    have hkept : replaceAll ['~', '1'] ['/'] ('~' :: '0' :: cs) =
        '~' :: '0' :: replaceAll ['~', '1'] ['/'] cs := by
      rw [replaceAll_cons_of_not (by simp), replaceAll_cons_of_not (by simp)]
    have htilde : ∀ rest, replaceAll ['~', '0'] ['~'] ('~' :: '0' :: rest) =
        '~' :: replaceAll ['~', '0'] ['~'] rest := fun rest => replaceAll_append (by decide) _ rest
    rw [Pointer.unescape, ih, Pointer.plain, Pointer.plain, hkept, htilde]
  | case3 c cs hslash htilde ih =>
    have hfirst : ¬ ['~', '1'] <+: c :: cs := by
      rintro ⟨rest, hrest⟩
      obtain ⟨hc, hcs⟩ := List.cons.inj hrest
      exact hslash rest hc.symm hcs.symm
    -- the first replacement does not make up an escape for the second one to replace
    have hsecond : ¬ ['~', '0'] <+: c :: replaceAll ['~', '1'] ['/'] cs := by
      rintro ⟨rest, hrest⟩
      obtain ⟨hc, hcs⟩ := List.cons.inj hrest
      obtain ⟨more, hmore⟩ := exists_cons_of_replaceAll hcs.symm
      exact htilde more hc.symm hmore
    rw [Pointer.unescape, ih, Pointer.plain, Pointer.plain, replaceAll_cons_of_not hfirst,
      replaceAll_cons_of_not hsecond]
    · exact hslash
    · exact htilde
  | case4 => rw [Pointer.unescape, Pointer.plain, replaceAll_nil, replaceAll_nil]

/-! ### Lookups -/

/-- The value under a key: the member with the key, or the item that the key numbers. -/
inductive ChildAt : Json → String → Json → Prop where
  | member {ms : Members} {key : String} {v : Json} :
      ms.get? key = some v → ChildAt (.obj ms) key v
  | item {vs : List Json} {n : Nat} {v : Json} : vs[n]? = some v → ChildAt (.arr vs) (toString n) v

/-- Keys lead from a value to one inside it, each to a child of what the keys before it lead to. -/
inductive Leads : Json → List String → Json → Prop where
  | root (v : Json) : Leads v [] v
  | step {v u w : Json} {key : String} {keys : List String} :
      ChildAt v key u → Leads u keys w → Leads v (key :: keys) w

/-- A text leads from one value to another: it is made of tokens without slashes, each behind a
    slash, and the tokens without their escapes lead there. -/
def Locates (v : Json) (text : List Char) (w : Json) : Prop :=
  ∃ tokens : List (List Char), (∀ token ∈ tokens, '/' ∉ token) ∧
    text = tokens.flatMap ('/' :: ·) ∧
      Leads v (tokens.map (String.ofList ∘ Pointer.plain)) w

theorem child?_eq_some_iff {v u : Json} {key : String} :
    v.child? key = some u ↔ ChildAt v key u := by
  cases v with
  | obj ms =>
    constructor
    · exact .member
    · rintro ⟨h⟩
      exact h
  | arr vs =>
    constructor
    · intro h
      obtain ⟨n, hn, hitem⟩ := Option.bind_eq_some_iff.mp h
      rw [itemIndex?_eq_some_iff.mp hn]
      exact .item hitem
    · intro h
      cases h with
      | item hitem => exact Option.bind_eq_some_iff.mpr ⟨_, itemIndex?_eq_some_iff.mpr rfl, hitem⟩
  | null | bool | num | str =>
    constructor
    · intro h
      cases h
    · rintro ⟨⟩

theorem follow?_eq_some_iff {v w : Json} {keys : Pointer} :
    v.follow? keys = some w ↔ Leads v keys w := by
  induction keys generalizing v with
  | nil =>
    rw [Json.follow?, Option.some.injEq]
    constructor
    · rintro rfl
      exact .root v
    · rintro ⟨⟩
      rfl
  | cons key keys ih =>
    rw [Json.follow?, Option.bind_eq_some_iff]
    constructor
    · rintro ⟨u, hchild, hrest⟩
      exact .step (child?_eq_some_iff.mp hchild) (ih.mp hrest)
    · intro h
      cases h with
      | step hchild hrest => exact ⟨_, child?_eq_some_iff.mpr hchild, ih.mpr hrest⟩

/-- A text is read as the tokens that it is made of. -/
theorem parse?_eq_some_iff {s : String} {keys : Pointer} :
    Pointer.parse? s = some keys ↔
      ∃ tokens : List (List Char), (∀ token ∈ tokens, '/' ∉ token) ∧
        s.toList = tokens.flatMap ('/' :: ·) ∧
          keys = tokens.map (String.ofList ∘ Pointer.plain) := by
  have hplain : (fun token => String.ofList (Pointer.unescape token)) =
      String.ofList ∘ Pointer.plain := by
    funext token
    exact congrArg String.ofList (unescape_eq token)
  rw [Pointer.parse?, hplain]
  constructor
  · intro h
    split at h
    · next hnil =>
      refine ⟨[], by simp, hnil, ?_⟩
      simpa using h.symm
    · next cs hcs =>
      -- the tokens are the pieces between the slashes behind the first one
      refine ⟨splitAt '/' cs, fun _ => notMem_of_mem_splitAt, ?_, ?_⟩
      · rw [hcs, flatMap_splitAt]
      · simpa using h.symm
    · cases h
  · rintro ⟨tokens, hslash, htext, rfl⟩
    cases tokens with
    | nil => rw [htext]; rfl
    | cons token tokens =>
      obtain ⟨htoken, htokens⟩ := List.forall_mem_cons.mp hslash
      rw [htext, List.flatMap_cons, List.cons_append]
      exact congrArg (fun pieces => some (pieces.map (String.ofList ∘ Pointer.plain)))
        (splitAt_append_flatMap htoken htokens)

/-- **Pointers.** Looking up a text finds what the text locates. -/
theorem pointer?_eq_some_iff {v w : Json} {s : String} :
    v.pointer? s = some w ↔ Locates v s.toList w := by
  rw [Json.pointer?, Option.bind_eq_some_iff]
  constructor
  · rintro ⟨keys, hparse, hfollow⟩
    obtain ⟨tokens, hslash, htext, rfl⟩ := parse?_eq_some_iff.mp hparse
    exact ⟨tokens, hslash, htext, follow?_eq_some_iff.mp hfollow⟩
  · rintro ⟨tokens, hslash, htext, hleads⟩
    exact ⟨_, parse?_eq_some_iff.mpr ⟨tokens, hslash, htext, rfl⟩,
      follow?_eq_some_iff.mpr hleads⟩

end SecurityScan
