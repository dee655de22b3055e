import SecurityScan.Proofs.StringSearch

namespace SecurityScan.Json

/-!
# The tokens that a value is read from

The machine leaves no token out and makes none up: whatever it has read so far gives the tokens back
in their order.

* `Frame.tokens` and `Progress.tokens` — the tokens of what is open, and of what has been read;
* `Progress.tokens_step` and `Progress.tokens_run` — each token taken is one more token of what has
  been read;
* `tokens_of_parse?` — so a value has the tokens of its text;
* `length_lt_of_mem_texts` — and its keys and strings are shorter than its text.
-/

/-! ### The machine -/

/-- The tokens of items, each with a comma behind it. -/
def leadingItems (vs : List Json) : List Token := vs.flatMap fun v => v.tokens ++ [.comma]

/-- The tokens of members, each with a comma behind it. -/
def leadingMembers (ms : Members) : List Token :=
  ms.flatMap fun p => .str p.1 :: .colon :: (p.2.tokens ++ [.comma])

/-- The tokens from the bracket or brace that opens a frame up to where its next value stands. -/
def Frame.tokens : Frame → List Token
  | .array items => .openBracket :: leadingItems items.reverse
  | .object members key =>
    .openBrace :: (leadingMembers members.reverse ++ [.str key, .colon])

/-- The tokens of the frames that are open, the innermost first. -/
def framesTokens (frames : List Frame) : List Token := frames.reverse.flatMap Frame.tokens

/-- The tokens that have been read. -/
def Progress.tokens : Progress → List Token
  | .value frames => framesTokens frames
  | .firstItem frames => framesTokens frames ++ [.openBracket]
  | .firstKey frames => framesTokens frames ++ [.openBrace]
  | .nextKey members frames =>
    framesTokens frames ++ .openBrace :: leadingMembers members.reverse
  | .afterKey members key frames =>
    framesTokens frames ++ .openBrace :: (leadingMembers members.reverse ++ [.str key])
  | .complete v frames => framesTokens frames ++ v.tokens

theorem framesTokens_cons (f : Frame) (frames : List Frame) :
    framesTokens (f :: frames) = framesTokens frames ++ f.tokens := by
  simp [framesTokens]

/-- The commas of an array may stand behind its items as well as before them. -/
theorem tokens_arr_append (vs : List Json) (v : Json) :
    (arr (vs ++ [v])).tokens =
      .openBracket :: (leadingItems vs ++ v.tokens ++ [.closeBracket]) := by
  -- behind the first item the tokens of the others start with a comma
  have hlater : ∀ ws : List Json, ∀ w : Json,
      tokensOfItems (ws ++ [w]) = .comma :: (leadingItems ws ++ w.tokens ++ [.closeBracket]) := by
    intro ws w
    induction ws with
    | nil => simp [tokensOfItems, leadingItems]
    | cons u ws ih => simp [tokensOfItems, ih, leadingItems]
  cases vs with
  | nil => simp [tokens, tokensOfItems, leadingItems]
  | cons u vs => simp [tokens, hlater, leadingItems]

/-- The commas of an object may stand behind its members as well as before them. -/
theorem tokens_obj_append (ms : Members) (k : String) (v : Json) :
    (obj (ms ++ [(k, v)])).tokens =
      .openBrace :: (leadingMembers ms ++ .str k :: .colon :: (v.tokens ++ [.closeBrace])) := by
  have hlater : ∀ ms : Members, tokensOfMembers (ms ++ [(k, v)]) =
      .comma :: (leadingMembers ms ++ .str k :: .colon :: (v.tokens ++ [.closeBrace])) := by
    intro ms
    induction ms with
    | nil => simp [tokensOfMembers, leadingMembers]
    | cons p ms ih => simp [tokensOfMembers, ih, leadingMembers]
  cases ms with
  | nil => simp [tokens, tokensOfMembers, leadingMembers]
  | cons p ms => simp [tokens, hlater, leadingMembers]

namespace Progress

theorem tokens_start {frames : List Frame} {t : Token} {q : Progress}
    (h : start frames t = some q) : q.tokens = framesTokens frames ++ [t] := by
  unfold start at h
  split at h
  case h_5 => split at h <;> cases h; rfl
  case h_6 => split at h <;> cases h; rfl
  case h_7 => cases h
  all_goals
    cases h
    rfl

/-- One step takes its token to the end of what has been read. -/
theorem tokens_step {p q : Progress} {t : Token} (h : p.step t = some q) :
    q.tokens = p.tokens ++ [t] := by
  unfold step at h
  split at h
  case h_1 => exact tokens_start h
  case h_3 =>
    rw [tokens_start h, framesTokens_cons]
    rfl
  case h_12 => cases h
  -- a comma goes behind the value before it, and a bracket or brace closes the innermost frame
  all_goals
    cases h
    simp [tokens, framesTokens_cons, Frame.tokens, tokens_arr_append, tokens_obj_append,
      Json.tokens, leadingItems, leadingMembers]

theorem tokens_run {p q : Progress} {ts : List Token} (h : p.run ts = (q, true)) :
    q.tokens = p.tokens ++ ts := by
  induction ts generalizing p with
  | nil =>
    cases h
    rw [List.append_nil]
  | cons t ts ih =>
    rw [run] at h
    split at h
    · next p' hp' => rw [ih h, tokens_step hp', List.append_assoc, List.singleton_append]
    · cases h

end Progress

/-- **A value has the tokens of its text.** -/
theorem tokens_of_parse? {s : String} {v : Json} (h : parse? s = some v) :
    Token.scan s.toList = (v.tokens, true) := by
  obtain ⟨ts, hscan, hrun⟩ := exists_run_of_parse? h
  have htokens := Progress.tokens_run hrun
  have hts : ts = v.tokens := by simpa [Progress.tokens, framesTokens] using htokens.symm
  rw [hscan, hts]

/-! ### The lengths of strings -/

/-- Each character of a string takes one character of the text at least, and the closing quote
    takes one more. -/
theorem length_of_readString {cs : List Char} :
    ∀ p, readString cs = some p → p.1.length + p.2.length < cs.length := by
  fun_induction readString cs with
  | case1 rest => simp
  | case2 => simp
  | case3 cs _ c rest hc hlt ih =>
    intro p h
    obtain ⟨⟨ds, more⟩, hread, rfl⟩ := Option.map_eq_some_iff.mp h
    have hrest := ih _ hread
    dsimp only at hrest ⊢
    rw [List.length_cons]
    omega

theorem Token.length_of_next? {cs rest : List Char} {s : String}
    (h : Token.next? cs = some (.str s, rest)) : s.toList.length < cs.length := by
  unfold Token.next? at h
  split at h
  case h_11 =>
    obtain ⟨p, hp, hs⟩ := Option.map_eq_some_iff.mp h
    cases hs
    have hlength := length_of_readString p hp
    rw [String.toList_ofList, List.length_cons]
    omega
  case h_12 =>
    obtain ⟨p, _, hp⟩ := Option.map_eq_some_iff.mp h
    cases hp
  all_goals cases h

theorem length_lt_of_mem_scan {s : String} (cs : List Char) (h : .str s ∈ (Token.scan cs).1) :
    s.toList.length < cs.length := by
  fun_induction Token.scan cs with
  | case1 => cases h
  | case2 c rest hblank ih => exact Nat.lt_succ_of_lt (ih h)
  | case3 => cases h
  | case4 c rest hblank t more hnext _ ts whole hscan ih =>
    rcases List.mem_cons.mp h with rfl | h
    · exact Token.length_of_next? hnext
    · exact (ih (by rw [hscan]; exact h)).trans (Token.next?_length hnext)

/-- **A text is longer than its keys and strings.** -/
theorem length_lt_of_mem_texts {text s : String} {v : Json} (h : parse? text = some v)
    (hs : s ∈ v.texts) : s.toList.length < text.toList.length := by
  refine length_lt_of_mem_scan text.toList ?_
  rw [tokens_of_parse? h]
  exact (str_mem_tokens_iff v).mpr hs

end SecurityScan.Json
