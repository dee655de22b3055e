import SecurityScan.Proofs.ParsedYaml
import SecurityScan.Proofs.TokenOrder
import SecurityScan.Proofs.UniqueKeys

namespace SecurityScan

open Decimal

/-!
# The integers of loaded documents

Whichever format a document is written in, its integers fit words of 64 bits.

* `Json.fits_of_mem_scan` — the integers among the tokens of a JSON text fit;
* `Json.num_mem_tokens_iff` — the numbers of a value are those among its tokens, and so of its text;
* `Json.numbers_merged` — settling repeated keys makes up none;
* `Yaml.closed_integersFit` — the integers that YAML scalars stand for fit, and reading keeps that;
* `Specification.load_fits` — so do all integers of a loaded document.
-/

namespace Json

/-! ### Tokens -/

theorem Literal.fits_of_number? {l : Literal} {n : Number} (h : l.number? = some n) : n.Fits := by
  have hsigned : ∀ {x : Option Float} {b : Bool}, x.map (signed b) = some n → n.Fits := by
    intro x b hx
    obtain ⟨x, _, rfl⟩ := Option.map_eq_some_iff.mp hx
    trivial
  have hlow : Nat.pow 2 63 = 9223372036854775808 := rfl
  have hhigh : Nat.pow 2 64 = 18446744073709551616 := rfl
  unfold Literal.number? at h
  split at h
  · dsimp only at h
    split at h
    · split at h
      · cases h
        trivial
      · split at h
        · cases h
          exact Number.fits_int_iff.mpr ⟨by omega, by omega⟩
        · exact hsigned h
    · split at h
      · cases h
        exact Number.fits_int_iff.mpr ⟨by omega, by omega⟩
      · exact hsigned h
  · exact hsigned h

theorem Token.fits_of_next? {cs rest : List Char} {n : Number}
    (h : Token.next? cs = some (.num n, rest)) : n.Fits := by
  unfold Token.next? at h
  split at h
  case h_11 =>
    obtain ⟨p, _, hp⟩ := Option.map_eq_some_iff.mp h
    cases hp
  case h_12 =>
    obtain ⟨p, hp, hn⟩ := Option.map_eq_some_iff.mp h
    cases hn
    simp only [readNumber, Option.bind_eq_bind, Option.bind_eq_some_iff, Prod.exists,
      Option.pure_def, Option.some.injEq] at hp
    obtain ⟨l, _, _, m, hm, rfl⟩ := hp
    exact Literal.fits_of_number? hm
  all_goals cases h

/-- The integers among the tokens of a text fit. -/
theorem fits_of_mem_scan {n : Number} (cs : List Char) (h : .num n ∈ (Token.scan cs).1) :
    n.Fits := by
  fun_induction Token.scan cs with
  | case1 => cases h
  | case2 c rest hblank ih => exact ih h
  | case3 => cases h
  | case4 c rest hblank t more hnext _ ts whole hscan ih =>
    rcases List.mem_cons.mp h with rfl | h
    · exact Token.fits_of_next? hnext
    · exact ih (by rw [hscan]; exact h)

/-! ### Values -/

mutual

/-- The numbers among the tokens of a value are its numbers. -/
theorem num_mem_tokens_iff {n : Number} : ∀ v : Json, .num n ∈ v.tokens ↔ n ∈ v.numbers
  | .null | .bool _ | .num _ | .str _ => by simp [tokens, numbers]
  | .arr [] => by simp [tokens, numbers, numbersOfItems]
  | .arr (v :: vs) => by
    simp [tokens, numbers, numbersOfItems, num_mem_tokens_iff v, num_mem_tokensOfItems_iff vs]
  | .obj [] => by simp [tokens, numbers, numbersOfMembers]
  | .obj ((_, v) :: ms) => by
    simp [tokens, numbers, numbersOfMembers, num_mem_tokens_iff v, num_mem_tokensOfMembers_iff ms]

theorem num_mem_tokensOfItems_iff {n : Number} :
    ∀ vs : List Json, .num n ∈ tokensOfItems vs ↔ n ∈ numbersOfItems vs
  | [] => by simp [tokensOfItems, numbersOfItems]
  | v :: vs => by
    simp [tokensOfItems, numbersOfItems, num_mem_tokens_iff v, num_mem_tokensOfItems_iff vs]

theorem num_mem_tokensOfMembers_iff {n : Number} :
    ∀ ms : List (String × Json), .num n ∈ tokensOfMembers ms ↔ n ∈ numbersOfMembers ms
  | [] => by simp [tokensOfMembers, numbersOfMembers]
  | (_, v) :: ms => by
    simp [tokensOfMembers, numbersOfMembers, num_mem_tokens_iff v, num_mem_tokensOfMembers_iff ms]

end

/-- The integers in the value of a text fit. -/
theorem fits_of_parse? {s : String} {v : Json} (h : parse? s = some v) :
    ∀ n ∈ v.numbers, n.Fits := by
  intro n hn
  refine fits_of_mem_scan s.toList ?_
  rw [tokens_of_parse? h]
  exact (num_mem_tokens_iff v).mpr hn

/-! ### Repeated keys -/

mutual

theorem numbers_merged : ∀ v : Json, v.merged.numbers ⊆ v.numbers
  | .arr vs => by
    intro n hn
    rw [merged, numbers, mem_numbersOfItems] at hn
    obtain ⟨w, hw, hn⟩ := hn
    exact numbers_mergedItems vs w hw hn
  | .obj ms => by
    intro n hn
    rw [merged, numbers, mem_numbersOfMembers] at hn
    obtain ⟨p, hp, hn⟩ := hn
    exact numbers_mergedMembers ms p (Members.mem_ofPairs hp) hn
  | .null | .bool _ | .num _ | .str _ => fun _ h => h

theorem numbers_mergedItems : ∀ vs : List Json, ∀ w ∈ mergedItems vs, w.numbers ⊆ numbersOfItems vs
  | [] => by simp [mergedItems]
  | v :: vs => by
    rw [mergedItems, List.forall_mem_cons, numbersOfItems]
    exact ⟨fun _ h => List.mem_append_left _ (numbers_merged v h),
      fun w hw _ h => List.mem_append_right _ (numbers_mergedItems vs w hw h)⟩

theorem numbers_mergedMembers :
    ∀ ms : List (String × Json), ∀ p ∈ mergedMembers ms, p.2.numbers ⊆ numbersOfMembers ms
  | [] => by simp [mergedMembers]
  | (k, v) :: ms => by
    rw [mergedMembers, List.forall_mem_cons, numbersOfMembers]
    exact ⟨fun _ h => List.mem_append_left _ (numbers_merged v h),
      fun p hp _ h => List.mem_append_right _ (numbers_mergedMembers ms p hp h)⟩

end

theorem fits_of_load? {s : String} {v : Json} (h : load? s = some v) : ∀ n ∈ v.numbers, n.Fits := by
  obtain ⟨w, hw, rfl⟩ := Option.map_eq_some_iff.mp h
  exact fun n hn => fits_of_parse? hw n (numbers_merged w hn)

end Json

namespace Yaml

/-! ### YAML values -/

/-- The integers in the document of a value fit; its keys are no numbers there. -/
def IntegersFit (v : Yaml) : Prop := ∀ n ∈ v.toJson.numbers, n.Fits

theorem integersFit_int {i : Int} (h : fitsWord i = true) : IntegersFit (.num (.int i)) := by
  intro n hn
  rw [toJson, numberJson, Json.numbers, List.mem_singleton] at hn
  · have hbounds : -(Int.pow 2 63) ≤ i ∧ i < Int.pow 2 64 := by simpa [fitsWord] using h
    rw [hn]
    exact hbounds
  · exact fun _ h => by cases h

theorem integersFit_float (x : Float) : IntegersFit (.num (.float x)) := by
  intro n hn
  rw [toJson, numberJson] at hn
  split at hn
  · rw [Json.numbers, List.mem_singleton] at hn
    rw [hn]
    trivial
  · simp [Json.numbers] at hn

theorem integersFit_seq {vs : List Yaml} (h : ∀ v ∈ vs, IntegersFit v) : IntegersFit (.seq vs) := by
  have hitems : ∀ n ∈ Json.numbersOfItems (toJsonItems vs), n.Fits := by
    induction vs with
    | nil => simp [toJsonItems, Json.numbersOfItems]
    | cons v vs ih =>
      obtain ⟨hv, hvs⟩ := List.forall_mem_cons.mp h
      rw [toJsonItems, Json.numbersOfItems, List.forall_mem_append]
      exact ⟨hv, ih hvs⟩
  rwa [IntegersFit, toJson, Json.numbers]

theorem integersFit_map {es : List (Yaml × Yaml)} (h : ∀ e ∈ es, IntegersFit e.2) :
    IntegersFit (.map es) := by
  have hpairs : ∀ p ∈ toJsonEntries es, ∀ n ∈ p.2.numbers, n.Fits := by
    induction es with
    | nil => simp [toJsonEntries]
    | cons e es ih =>
      obtain ⟨he, hes⟩ := List.forall_mem_cons.mp h
      rw [toJsonEntries, List.forall_mem_cons]
      exact ⟨he, ih hes⟩
  intro n hn
  rw [toJson, Json.numbers, Json.mem_numbersOfMembers] at hn
  obtain ⟨p, hp, hn⟩ := hn
  exact hpairs p (Members.mem_ofPairs hp) n hn

/-- A scalar that is no number has none in its document. -/
theorem integersFit_of_numbers {v : Yaml} (h : v.toJson.numbers = []) : IntegersFit v := by
  simp [IntegersFit, h]

/-- The integers of scalars fit, and the parts of a value have all others. -/
theorem closed_integersFit : Closed IntegersFit where
  scalar hv := by
    cases hv with
    | int hfits => exact integersFit_int hfits
    | float x => exact integersFit_float x
    | null | bool | str => exact integersFit_of_numbers rfl
  seq hvs := integersFit_seq hvs
  map _ hes := integersFit_map fun e he => (hes e he).2
  tagged hv := by rwa [IntegersFit, toJson]

end Yaml

/-- **The integers of a loaded document fit** words of 64 bits, whichever format it is written
    in. -/
theorem Specification.load_fits {text : String} {doc : Json} (h : load text = .ok doc) :
    ∀ n ∈ doc.numbers, n.Fits := by
  rw [load] at h
  split at h
  · cases h
  · split at h
    · next hv =>
      cases h
      exact Json.fits_of_load? hv
    · split at h
      · next hv =>
        cases h
        exact Yaml.closed_integersFit.of_parse? hv
      · cases h

end SecurityScan
