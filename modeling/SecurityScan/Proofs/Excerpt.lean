import SecurityScan.Json.Excerpt
import SecurityScan.Proofs.Nesting
import SecurityScan.Proofs.TokenOrder

namespace SecurityScan

/-!
# Excerpts of texts that have a value

A text whose value can be read as a whole gives the same record if only what the record asks for is
read.

* `Shape.keep` — a value as far as it is asked for;
* `Lexeme.scan_of_scan` — where all is tokens, the lexemes are these tokens;
* `Excerpt.run_passing` and `Excerpt.run_reading` — the tokens of a value are passed over, or read as
  far as the value is asked for, whatever is open around it;
* `excerpt?_of_parse?` — so the excerpt of a text is its value, as far as that is asked for.
-/

namespace Json

/-! ### What is asked for -/

namespace Shape

mutual

/-- The value as far as it is asked for. -/
def keep : Shape → Json → Json
  | s, .arr vs => .arr (keepItems s 0 vs)
  | s, .obj ms => .obj (keepMembers s ms)
  | _, v => v

/-- The items from some place on, as far as they are asked for. -/
def keepItems (s : Shape) : Nat → List Json → List Json
  | _, [] => []
  | i, v :: vs => keep (s.item i) v :: keepItems s (i + 1) vs

/-- The members, with null for those that are not asked for. -/
def keepMembers (s : Shape) : List (String × Json) → List (String × Json)
  | [] => []
  | (k, v) :: ms => (k, if s.asks k then keep (s.member k) v else .null) :: keepMembers s ms

end

end Shape

/-! ### Lexemes -/

theorem Lexeme.next?_of_next? {cs rest : List Char} {t : Token}
    (h : Token.next? cs = some (t, rest)) : Lexeme.next? cs = some (.token t, rest) := by
  unfold Lexeme.next?
  rw [h]

/-- Where all is tokens, the lexemes are these tokens. -/
theorem Lexeme.scan_of_scan {cs : List Char} {ts : List Token} (h : Token.scan cs = (ts, true)) :
    Lexeme.scan cs = (ts.map .token, true) := by
  fun_induction Token.scan cs generalizing ts with
  | case1 =>
    cases h
    rw [Lexeme.scan]
    rfl
  | case2 c rest hblank ih => rw [Lexeme.scan, if_pos hblank, ih h]
  | case3 => cases h
  | case4 c rest hblank t more hnext _ us whole hscan ih =>
    cases h
    rw [Lexeme.scan, if_neg hblank]
    split
    · next hnone => cases (Lexeme.next?_of_next? hnext).symm.trans hnone
    · next t' more' hnext' =>
      cases (Lexeme.next?_of_next? hnext).symm.trans hnext'
      rw [ih hscan]
      rfl

namespace Excerpt

variable {shape : Shape} {p : Progress}

/-! ### What is passed over -/

theorem exists_tokens_eq_cons (v : Json) : ∃ t ts, v.tokens = t :: ts := by
  cases v with
  | null | bool | num | str => exact ⟨_, _, rfl⟩
  | arr vs => cases vs <;> exact ⟨_, _, rfl⟩
  | obj ms => cases ms <;> exact ⟨_, _, rfl⟩

/-- Where a first item may stand, the lexemes of a value are those of that item. -/
theorem run_firstItem (bs : List Bracket) (v : Json) (ts : List Lexeme) :
    (passing p (.firstItem bs)).run shape (v.tokens.map .token ++ ts) =
      (passing p (.value (.array :: bs))).run shape (v.tokens.map .token ++ ts) := by
  cases v with
  | null | bool | num | str => rfl
  | arr vs => cases vs <;> rfl
  | obj ms => cases ms <;> rfl

mutual

/-- **A value is passed over.** -/
theorem run_passing (bs : List Bracket) (ts : List Lexeme) :
    ∀ v : Json, (passing p (.value bs)).run shape (v.tokens.map .token ++ ts) =
      (settle p (.complete bs)).bind (run shape · ts)
  | .null | .bool _ | .num _ | .str _ => rfl
  | .arr [] => rfl
  | .arr (v :: vs) => by
    rw [tokens]
    show (passing p (.firstItem bs)).run shape ((v.tokens ++ tokensOfItems vs).map .token ++ ts) = _
    rw [List.map_append, List.append_assoc, run_firstItem, run_passing (.array :: bs) _ v]
    exact run_passingItems bs ts vs
  | .obj [] => rfl
  | .obj ((k, v) :: ms) => by
    rw [tokens]
    show (passing p (.value (.object :: bs))).run shape
      ((v.tokens ++ tokensOfMembers ms).map .token ++ ts) = _
    rw [List.map_append, List.append_assoc, run_passing (.object :: bs) _ v]
    exact run_passingMembers bs ts ms

/-- With an array open and an item complete, the further items are passed over up to its end. -/
theorem run_passingItems (bs : List Bracket) (ts : List Lexeme) :
    ∀ vs : List Json,
      (passing p (.complete (.array :: bs))).run shape ((tokensOfItems vs).map .token ++ ts) =
        (settle p (.complete bs)).bind (run shape · ts)
  | [] => rfl
  | v :: vs => by
    rw [tokensOfItems]
    show (passing p (.value (.array :: bs))).run shape
      ((v.tokens ++ tokensOfItems vs).map .token ++ ts) = _
    rw [List.map_append, List.append_assoc, run_passing (.array :: bs) _ v]
    exact run_passingItems bs ts vs

/-- With an object open and a member complete, the further members are passed over up to its end. -/
theorem run_passingMembers (bs : List Bracket) (ts : List Lexeme) :
    ∀ ms : List (String × Json),
      (passing p (.complete (.object :: bs))).run shape ((tokensOfMembers ms).map .token ++ ts) =
        (settle p (.complete bs)).bind (run shape · ts)
  | [] => rfl
  | (k, v) :: ms => by
    rw [tokensOfMembers]
    show (passing p (.value (.object :: bs))).run shape
      ((v.tokens ++ tokensOfMembers ms).map .token ++ ts) = _
    rw [List.map_append, List.append_assoc, run_passing (.object :: bs) _ v]
    exact run_passingMembers bs ts ms

end

/-! ### What is read -/

/-- A token is taken as by the reader of whole texts, unless a value must follow that is not asked
    for. -/
theorem run_step {q : Progress} {t : Token} (hasked : shape.passes p = false)
    (h : p.step t = some q) (ts : List Lexeme) :
    (reading p).run shape (.token t :: ts) = (reading q).run shape ts := by
  have hnot : ¬ shape.passes p = true := by simp [hasked]
  rw [run, step, if_neg hnot, h]
  rfl

theorem run_openBracket {frames : List Frame} (hasked : shape.passes (.value frames) = false)
    (hroom : frames.length < maxOpen) (ts : List Lexeme) :
    (reading (.value frames)).run shape (.token .openBracket :: ts) =
      (reading (.firstItem frames)).run shape ts := by
  have hstep : (Progress.value frames).step .openBracket = some (.firstItem frames) :=
    start_openBracket hroom
  exact run_step hasked hstep ts

theorem run_openBrace {frames : List Frame} (hasked : shape.passes (.value frames) = false)
    (hroom : frames.length < maxOpen) (ts : List Lexeme) :
    (reading (.value frames)).run shape (.token .openBrace :: ts) =
      (reading (.firstKey frames)).run shape ts := by
  have hstep : (Progress.value frames).step .openBrace = some (.firstKey frames) :=
    start_openBrace hroom
  exact run_step hasked hstep ts

/-- Where a first item may stand, the tokens of a value are read as those of that item. -/
theorem run_firstItem_reading (frames : List Frame) (v : Json) (ts : List Lexeme) :
    (reading (.firstItem frames)).run shape (v.tokens.map .token ++ ts) =
      (reading (.value (.array [] :: frames))).run shape (v.tokens.map .token ++ ts) := by
  cases v with
  | null | bool | num | str => rfl
  | arr vs => cases vs <;> rfl
  | obj ms => cases ms <;> rfl

/-- A value that is not asked for is read as null. -/
theorem run_of_passes {frames : List Frame} (h : shape.passes (.value frames) = true) (v : Json)
    (ts : List Lexeme) :
    (reading (.value frames)).run shape (v.tokens.map .token ++ ts) =
      (reading (.complete .null frames)).run shape ts := by
  have hpass : (reading (.value frames)).run shape (v.tokens.map .token ++ ts) =
      (passing (.value frames) (.value [])).run shape (v.tokens.map .token ++ ts) := by
    obtain ⟨t, us, htokens⟩ := exists_tokens_eq_cons v
    rw [htokens, List.map_cons, List.cons_append, run, step, if_pos h]
    rfl
  rw [hpass, run_passing]
  rfl

/-- The value of a member is read if its key is asked for. -/
theorem run_member {members : Members} {k : String} {frames : List Frame} {v w : Json}
    {ts : List Lexeme}
    (hread : shape.passes (.value (.object members k :: frames)) = false →
      (reading (.value (.object members k :: frames))).run shape (v.tokens.map .token ++ ts) =
        (reading (.complete w (.object members k :: frames))).run shape ts) :
    (reading (.value (.object members k :: frames))).run shape (v.tokens.map .token ++ ts) =
      (reading (.complete (if (shape.within frames).asks k then w else .null)
        (.object members k :: frames))).run shape ts := by
  cases hasks : (shape.within frames).asks k with
  | true => exact hread (by simp [Shape.passes, hasks])
  | false => exact run_of_passes (by simp [Shape.passes, hasks]) v ts

mutual

/-- **A value is read as far as it is asked for**, if it leaves the reader room. -/
theorem run_reading (frames : List Frame) (ts : List Lexeme) :
    ∀ v : Json, frames.length + v.depth ≤ maxOpen → shape.passes (.value frames) = false →
      (reading (.value frames)).run shape (v.tokens.map .token ++ ts) =
        (reading (.complete ((shape.within frames).keep v) frames)).run shape ts
  | .null, _, hasked | .bool _, _, hasked | .num _, _, hasked | .str _, _, hasked =>
    run_step hasked rfl ts
  | .arr [], h, hasked => by
    have hroom : frames.length < maxOpen := by rw [depth] at h; omega
    rw [tokens, Shape.keep, Shape.keepItems]
    exact run_openBracket hasked hroom _
  | .arr (v :: vs), h, hasked => by
    rw [depth, depthItems] at h
    have hroom : frames.length < maxOpen := by omega
    rw [tokens, List.map_cons, List.cons_append, run_openBracket hasked hroom,
      List.map_append, List.append_assoc, run_firstItem_reading,
      run_reading (.array [] :: frames) _ v (by rw [List.length_cons]; omega) rfl,
      run_readingItems frames ts vs _ [] (by omega), Shape.keep, Shape.keepItems]
    rfl
  | .obj [], h, hasked => by
    have hroom : frames.length < maxOpen := by rw [depth] at h; omega
    rw [tokens, Shape.keep, Shape.keepMembers]
    exact run_openBrace hasked hroom _
  | .obj ((k, v) :: ms), h, hasked => by
    rw [depth, depthMembers] at h
    have hroom : frames.length < maxOpen := by omega
    rw [tokens, List.map_cons, List.cons_append, run_openBrace hasked hroom]
    show (reading (.value (.object [] k :: frames))).run shape
      ((v.tokens ++ tokensOfMembers ms).map .token ++ ts) = _
    rw [List.map_append, List.append_assoc,
      run_member (run_reading (.object [] k :: frames) _ v (by rw [List.length_cons]; omega)),
      run_readingMembers frames ts ms k _ [] (by omega), Shape.keep, Shape.keepMembers]
    rfl

/-- With an array open and its last item complete, the further items are read up to its end. -/
theorem run_readingItems (frames : List Frame) (ts : List Lexeme) :
    ∀ (vs : List Json) (v : Json) (items : List Json),
      frames.length + 1 + depthItems vs ≤ maxOpen →
      (reading (.complete v (.array items :: frames))).run shape
          ((tokensOfItems vs).map .token ++ ts) =
        (reading (.complete (.arr ((v :: items).reverse ++
          (shape.within frames).keepItems (items.length + 1) vs)) frames)).run shape ts
  | [], v, items, _ => by
    rw [Shape.keepItems, List.append_nil]
    rfl
  | w :: vs, v, items, h => by
    rw [depthItems] at h
    rw [tokensOfItems]
    show (reading (.value (.array (v :: items) :: frames))).run shape
      ((w.tokens ++ tokensOfItems vs).map .token ++ ts) = _
    rw [List.map_append, List.append_assoc,
      run_reading (.array (v :: items) :: frames) _ w (by rw [List.length_cons]; omega) rfl,
      run_readingItems frames ts vs _ (v :: items) (by omega), Shape.keepItems]
    simp [Shape.within, Shape.part]

/-- With an object open and its last member complete, the further members are read up to its
    end. -/
theorem run_readingMembers (frames : List Frame) (ts : List Lexeme) :
    ∀ (ms : List (String × Json)) (k : String) (v : Json) (members : Members),
      frames.length + 1 + depthMembers ms ≤ maxOpen →
      (reading (.complete v (.object members k :: frames))).run shape
          ((tokensOfMembers ms).map .token ++ ts) =
        (reading (.complete (.obj (((k, v) :: members).reverse ++
          (shape.within frames).keepMembers ms)) frames)).run shape ts
  | [], k, v, members, _ => by
    rw [Shape.keepMembers, List.append_nil]
    rfl
  | (l, w) :: ms, k, v, members, h => by
    rw [depthMembers] at h
    rw [tokensOfMembers]
    show (reading (.value (.object ((k, v) :: members) l :: frames))).run shape
      ((w.tokens ++ tokensOfMembers ms).map .token ++ ts) = _
    rw [List.map_append, List.append_assoc,
      run_member (run_reading (.object ((k, v) :: members) l :: frames) _ w
        (by rw [List.length_cons]; omega)),
      run_readingMembers frames ts ms l _ ((k, v) :: members) (by omega), Shape.keepMembers]
    simp [Shape.within, Shape.part]

end

end Excerpt

/-- **The excerpt of a text that has a value** is that value, as far as it is asked for. -/
theorem excerpt?_of_parse? {text : String} {v : Json} (h : parse? text = some v) (shape : Shape) :
    excerpt? shape text = some (shape.keep v) := by
  have hscan := Lexeme.scan_of_scan (tokens_of_parse? h)
  have hroom : ([] : List Frame).length + v.depth ≤ maxOpen := by simpa using depth_le_of_parse? h
  have hrun : (Excerpt.reading (.value [])).run shape (v.tokens.map .token ++ []) =
      some (.reading (.complete (shape.keep v) [])) := Excerpt.run_reading [] [] v hroom rfl
  rw [List.append_nil] at hrun
  rw [excerpt?, hscan]
  dsimp only
  rw [hrun]
  rfl

end Json

end SecurityScan
