import SecurityScan.Proofs.KeyTexts
import SecurityScan.Proofs.TokenOrder

namespace SecurityScan

/-!
# Tags and documents

A document has no tags.  In a value a tag is dropped, whatever stands below it.  On a key it is
dropped too, but the text of a tagged key is the compact text of its document: a string has quotes
there, and some floats are written in another way.

* `Yaml.untagged` — a value without its tags, in values and in keys;
* `Yaml.ofEntries_cases` — entries written into a mapping are fewer exactly if two keys are the same;
* `Yaml.ShowsTag` and `Yaml.showsTag_iff` — the keys whose text is another one for the tags that
  stand on them;
* `Yaml.KeepsKeys` and `Yaml.of_toJson_untagged_map` — the keys of a mapping without their tags;
* `Yaml.toJson_untagged` — when a value has the same document without its tags.
-/

namespace Yaml

/-! ### Values without tags -/

/-- The entries with one more.  If the key is there, the entry stays where it is, with the key that
    it has, and its value is replaced. -/
def insertEntry (k v : Yaml) : List (Yaml × Yaml) → List (Yaml × Yaml)
  | [] => [(k, v)]
  | e :: es => if e.1.same k then (e.1, v) :: es else e :: insertEntry k v es

/-- The mapping into which the entries are written, one after the other. -/
def ofEntries (es : List (Yaml × Yaml)) : List (Yaml × Yaml) :=
  es.foldl (fun written e => insertEntry e.1 e.2 written) []

mutual
/-- The value without the tags in it, in values and in keys at any depth.  Keys that are the same
    without their tags are one. -/
def untagged : Yaml → Yaml
  | .seq items => .seq (untaggedItems items)
  | .map entries => .map (ofEntries (untaggedEntries entries))
  | .tagged _ v => untagged v
  | v => v
/-- The items without their tags. -/
def untaggedItems : List Yaml → List Yaml
  | [] => []
  | v :: vs => untagged v :: untaggedItems vs
/-- The entries without the tags of their keys and values. -/
def untaggedEntries : List (Yaml × Yaml) → List (Yaml × Yaml)
  | [] => []
  | (k, v) :: es => (untagged k, untagged v) :: untaggedEntries es
end

theorem untaggedItems_eq_map (vs : List Yaml) : untaggedItems vs = vs.map untagged := by
  induction vs with
  | nil => rfl
  | cons v vs ih => rw [untaggedItems, ih, List.map_cons]

theorem untaggedEntries_eq_map (es : List (Yaml × Yaml)) :
    untaggedEntries es = es.map fun e => (e.1.untagged, e.2.untagged) := by
  induction es with
  | nil => rfl
  | cons e es ih => rw [untaggedEntries, ih, List.map_cons]

/-- An entry is written over one with the same key, or it is new and comes last. -/
theorem insertEntry_cases (k v : Yaml) (es : List (Yaml × Yaml)) :
    ((∃ e ∈ es, e.1.same k = true) ∧ (insertEntry k v es).length = es.length) ∨
      ((∀ e ∈ es, e.1.same k = false) ∧ insertEntry k v es = es ++ [(k, v)]) := by
  induction es with
  | nil => exact .inr ⟨by simp, rfl⟩
  | cons e es ih =>
    rw [insertEntry]
    cases hsame : e.1.same k with
    | true => exact .inl ⟨⟨e, List.mem_cons_self, hsame⟩, rfl⟩
    | false =>
      rcases ih with ⟨⟨d, hd, hold⟩, hlength⟩ | ⟨hnew, hlast⟩
      · exact .inl ⟨⟨d, List.mem_cons_of_mem _ hd, hold⟩, congrArg Nat.succ hlength⟩
      · exact .inr ⟨List.forall_mem_cons.mpr ⟨hsame, hnew⟩, congrArg (List.cons e) hlast⟩

/-- **Entries that are written** are as they were if no two keys are the same, and fewer if two
    are. -/
theorem ofEntries_cases (es : List (Yaml × Yaml)) :
    (DistinctKeys es ∧ ofEntries es = es) ∨
      (¬ DistinctKeys es ∧ (ofEntries es).length < es.length) := by
  -- by induction on the entry that is written last
  induction es using List.reverseRecOn with
  | nil => exact .inl ⟨List.Pairwise.nil, rfl⟩
  | append_singleton es e ih =>
    have hstep : ofEntries (es ++ [e]) = insertEntry e.1 e.2 (ofEntries es) := by
      rw [ofEntries, List.foldl_append]
      rfl
    rw [hstep, distinctKeys_concat, List.length_append, List.length_singleton]
    rcases ih with ⟨hkeys, heq⟩ | ⟨hkeys, hfewer⟩
    · rw [heq]
      rcases insertEntry_cases e.1 e.2 es with ⟨⟨d, hd, hold⟩, hlength⟩ | ⟨hnew, hlast⟩
      · refine .inr ⟨fun h => ?_, hlength ▸ Nat.lt_succ_self _⟩
        rw [h.2 d hd] at hold
        cases hold
      · exact .inl ⟨⟨hkeys, hnew⟩, hlast⟩
    · -- one more entry does not make up for the one that is missing
      refine .inr ⟨fun h => hkeys h.1, ?_⟩
      rcases insertEntry_cases e.1 e.2 (ofEntries es) with ⟨_, hlength⟩ | ⟨_, hlast⟩
      · omega
      · rw [hlast, List.length_append, List.length_singleton]
        omega

theorem ofEntries_of_distinctKeys {es : List (Yaml × Yaml)} (h : DistinctKeys es) :
    ofEntries es = es := by
  rcases ofEntries_cases es with ⟨_, heq⟩ | ⟨hkeys, _⟩
  · exact heq
  · exact absurd h hkeys

/-- The value below the tags that stand on it. -/
def content : Yaml → Yaml
  | .tagged _ v => content v
  | v => v

theorem untagged_content (v : Yaml) : v.content.untagged = v.untagged := by
  fun_induction content v with
  | case1 t v ih => rw [ih, untagged]
  | case2 => rfl

theorem toJson_content (v : Yaml) : v.content.toJson = v.toJson := by
  fun_induction content v with
  | case1 t v ih => rw [ih, toJson]
  | case2 => rfl

/-! ### Texts of keys -/

/-- The value has one text as a key and another one in a document: it is a string, or a float that
    keys write in their own way. -/
inductive HasTwoTexts : Yaml → Prop where
  | str (s : String) : HasTwoTexts (.str s)
  | float {x : Float} : numberText (.float x) ≠ (numberJson (.float x)).compact →
      HasTwoTexts (.num (.float x))

/-- A string in quotes is longer than the string. -/
theorem ne_compact_str (s : String) : s ≠ (Json.str s).compact := by
  intro h
  have hchars : s.toList = '"' :: (Json.escape s.toList ++ ['"']) := by
    conv_lhs => rw [h]
    rw [Json.compact, String.toList_ofList, Json.chars, Json.quoted, List.cons_append]
  have hshort := Json.length_of_readString _ (Json.readString_escape s.toList [])
  have hlong := congrArg List.length hchars
  simp only [List.length_cons, List.length_append, List.length_nil] at hshort hlong
  omega

theorem hasTwoTexts_iff (v : Yaml) : v.HasTwoTexts ↔ v.keyText ≠ v.toJson.compact := by
  cases v with
  | null => exact iff_of_false (fun h => by cases h) (by decide)
  | bool b => cases b <;> exact iff_of_false (fun h => by cases h) (by decide)
  | num n =>
    cases n with
    | int i =>
      have hone : numberText (.int i) = (Json.num (.int i)).compact := by
        rw [Json.compact, Json.chars, ← toList_numberText_int, String.ofList_toList]
      exact iff_of_false (fun h => by cases h) (not_not.mpr hone)
    | float x => exact ⟨fun h => by cases h with | float hne => exact hne, .float⟩
  | str s => exact iff_of_true (.str s) (ne_compact_str s)
  | seq vs => exact iff_of_false (fun h => by cases h) (not_not.mpr rfl)
  | map es => exact iff_of_false (fun h => by cases h) (not_not.mpr rfl)
  | tagged t v => exact iff_of_false (fun h => by cases h) (not_not.mpr rfl)

theorem HasTwoTexts.untagged_eq {v : Yaml} (h : v.HasTwoTexts) : v.untagged = v := by
  cases h <;> rfl

/-- The tags on a key change its text. -/
inductive ShowsTag : Yaml → Prop where
  | tagged (t : String) {v : Yaml} : v.content.HasTwoTexts → ShowsTag (.tagged t v)

/-- **Tags on keys.** They change the text exactly of the keys that show them. -/
theorem showsTag_iff (k : Yaml) : k.ShowsTag ↔ k.content.keyText ≠ k.keyText := by
  cases k with
  | tagged t v =>
    have htext : (Yaml.tagged t v).keyText = v.content.toJson.compact := by
      rw [keyText, toJson_content]
    rw [htext, content, ← hasTwoTexts_iff]
    exact ⟨fun h => by cases h with | tagged _ h => exact h, .tagged t⟩
  | _ => exact iff_of_false (fun h => by cases h) (not_not.mpr rfl)

/-- If a key has the same document without its tags, then its text without them is the text of what
    stands below the tags on it. -/
theorem keyText_untagged {k : Yaml} (h : k.untagged.toJson = k.toJson) :
    k.untagged.keyText = k.content.keyText := by
  fun_induction content k with
  | case1 t v ih => exact ih h
  | case2 k hk =>
    -- the text of a collection is that of its document, and a scalar has no tags
    cases k with
    | seq vs => exact congrArg Json.compact h
    | map es => exact congrArg Json.compact h
    | tagged t v => exact absurd rfl (hk t v)
    | _ => rfl

/-- A key that has the same text without its tags shows none. -/
theorem not_showsTag_of_keyText {k : Yaml} (h : k.untagged.keyText = k.keyText) : ¬ k.ShowsTag := by
  intro hshows
  cases hshows with
  | @tagged t v hcontent =>
    refine (hasTwoTexts_iff _).mp hcontent ?_
    calc v.content.keyText = v.content.untagged.keyText := by rw [hcontent.untagged_eq]
      _ = v.untagged.keyText := by rw [untagged_content]
      _ = v.toJson.compact := h
      _ = v.content.toJson.compact := by rw [toJson_content]

/-! ### Tags in documents -/

/-- The entries of a mapping without the tags of their keys and values. -/
def bareEntries (es : List (Yaml × Yaml)) : List (Yaml × Yaml) :=
  es.map fun e => (e.1.untagged, e.2.untagged)

theorem untagged_seq (vs : List Yaml) : untagged (.seq vs) = .seq (vs.map untagged) := by
  rw [untagged, untaggedItems_eq_map]

theorem untagged_map (es : List (Yaml × Yaml)) :
    untagged (.map es) = .map (ofEntries (bareEntries es)) := by
  rw [untagged, untaggedEntries_eq_map, bareEntries]

/-- Without the tags the keys of the entries are still different and have the texts that they had. -/
structure KeepsKeys (es : List (Yaml × Yaml)) : Prop where
  distinct : DistinctKeys (bareEntries es)
  text : ∀ e ∈ es, e.1.untagged.keyText = e.1.keyText

theorem toJson_untagged_seq_iff {vs : List Yaml} :
    (untagged (.seq vs)).toJson = (Yaml.seq vs).toJson ↔
      ∀ v ∈ vs, v.untagged.toJson = v.toJson := by
  rw [untagged_seq, toJson_seq, toJson_seq, List.map_map, Json.arr.injEq, List.map_inj_left]
  rfl

theorem toJson_untagged_map {es : List (Yaml × Yaml)} (hkeys : KeepsKeys es)
    (hvalues : ∀ e ∈ es, e.2.untagged.toJson = e.2.toJson) :
    (untagged (.map es)).toJson = (Yaml.map es).toJson := by
  have hpairs : pairs (bareEntries es) = pairs es := by
    rw [pairs, bareEntries, List.map_map]
    exact List.map_congr_left fun e he => Prod.ext (hkeys.text e he) (hvalues e he)
  rw [untagged_map, ofEntries_of_distinctKeys hkeys.distinct, toJson_map, toJson_map, hpairs]

/-- Where the keys do not share a member, the documents are the same with the tags and without them
    only if the keys are kept and each value has the same document. -/
theorem of_toJson_untagged_map {es : List (Yaml × Yaml)} (hnodup : (keyTexts es).Nodup)
    (h : (untagged (.map es)).toJson = (Yaml.map es).toJson) :
    KeepsKeys es ∧ ∀ e ∈ es, e.2.untagged.toJson = e.2.toJson := by
  rw [untagged_map, toJson_map, toJson_map_eq hnodup, Json.obj.injEq] at h
  have hlength : (Members.ofPairs (pairs (ofEntries (bareEntries es)))).length = es.length := by
    rw [h, pairs, List.length_map]
  rcases ofEntries_cases (bareEntries es) with ⟨hdistinct, heq⟩ | ⟨_, hfewer⟩
  · rw [heq] at h hlength
    -- as many members as entries, so the keys do not share one without their tags either
    have hunique := (Members.length_ofPairs_eq_iff (pairs (bareEntries es))).mp <| by
      rw [hlength, pairs, bareEntries, List.length_map, List.length_map]
    rw [Members.ofPairs_of_uniqueKeys hunique, pairs, bareEntries, List.map_map, pairs,
      List.map_inj_left] at h
    exact ⟨⟨hdistinct, fun e he => congrArg Prod.fst (h e he)⟩,
      fun e he => congrArg Prod.snd (h e he)⟩
  · -- fewer entries cannot become as many members
    have hle := Members.length_ofPairs_le (pairs (ofEntries (bareEntries es)))
    rw [hlength, pairs, List.length_map] at hle
    rw [bareEntries, List.length_map] at hfewer
    exact absurd hle (Nat.not_le_of_lt hfewer)

/-- A value whose keys are kept has the same document without its tags. -/
theorem toJson_untagged_of_keepsKeys {v : Yaml}
    (h : ∀ es, v.Holds (.map es) → KeepsKeys es) : v.untagged.toJson = v.toJson := by
  induction v using Yaml.induct with
  | seq vs ih =>
    exact toJson_untagged_seq_iff.mpr fun v hv => ih v hv fun es hes => h es (.item hv hes)
  | map es ih =>
    exact toJson_untagged_map (h es .self) fun e he =>
      (ih e he).2 fun fs hfs => h fs (.value he hfs)
  | tagged t v ih => exact ih fun es hes => h es (.tagged hes)
  | _ => rfl

/-- Where no two keys share a member, a value that has the same document without its tags keeps its
    keys. -/
theorem keepsKeys_of_toJson_untagged {v w : Yaml} (hw : v.Holds w) (hkeeps : v.KeepsEntries)
    (h : v.untagged.toJson = v.toJson) : ∀ es, w = .map es → KeepsKeys es := by
  -- from a value the equation passes to the values in it, and so down to the mapping
  induction hw with
  | self =>
    rintro es rfl
    exact (of_toJson_untagged_map (hkeeps es .self) h).1
  | item hmem _ ih =>
    exact ih (fun es hes => hkeeps es (.item hmem hes)) (toJson_untagged_seq_iff.mp h _ hmem)
  | value hmem _ ih =>
    exact ih (fun es hes => hkeeps es (.value hmem hes))
      ((of_toJson_untagged_map (hkeeps _ .self) h).2 _ hmem)
  | tagged _ ih => exact ih (fun es hes => hkeeps es (.tagged hes)) h

/-- A value in which no key shows a tag, and in which the keys are different without their tags, has
    the same document without its tags. -/
theorem toJson_untagged_of_not_showsTag {v : Yaml}
    (h : ∀ es, v.Part (.map es) → DistinctKeys (bareEntries es) ∧ ∀ e ∈ es, ¬ e.1.ShowsTag) :
    v.untagged.toJson = v.toJson := by
  induction v using Yaml.induct with
  | seq vs ih =>
    exact toJson_untagged_seq_iff.mpr fun v hv => ih v hv fun es hes => h es (.item hv hes)
  | map es ih =>
    obtain ⟨hdistinct, hshows⟩ := h es .self
    refine toJson_untagged_map ⟨hdistinct, fun e he => ?_⟩ fun e he =>
      (ih e he).2 fun fs hfs => h fs (.value he hfs)
    -- the keys in the key show no tags, and neither does the key
    have hdoc : e.1.untagged.toJson = e.1.toJson := (ih e he).1 fun fs hfs => h fs (.key he hfs)
    rw [keyText_untagged hdoc]
    exact not_not.mp fun hne => hshows e he ((showsTag_iff e.1).mpr hne)
  | tagged t v ih => exact ih fun es hes => h es (.tagged hes)
  | _ => rfl

/-- **Tags and documents.** A value has the same document without its tags if each mapping among
    the values keeps its keys, so in particular if no key in it shows a tag and the keys stay
    different.  Where no two keys share a member this is the only case, and no key among the values
    shows a tag then. -/
theorem toJson_untagged (v : Yaml) :
    ((∀ es, v.Holds (.map es) → KeepsKeys es) → v.untagged.toJson = v.toJson) ∧
    ((∀ es, v.Part (.map es) → DistinctKeys (bareEntries es) ∧ ∀ e ∈ es, ¬ e.1.ShowsTag) →
      v.untagged.toJson = v.toJson) ∧
    (v.KeepsEntries → v.untagged.toJson = v.toJson →
      ∀ es, v.Holds (.map es) → KeepsKeys es ∧ ∀ e ∈ es, ¬ e.1.ShowsTag) := by
  refine ⟨toJson_untagged_of_keepsKeys, toJson_untagged_of_not_showsTag, fun hkeeps h es hes => ?_⟩
  have hkeys : KeepsKeys es := keepsKeys_of_toJson_untagged hes hkeeps h es rfl
  exact ⟨hkeys, fun e he => not_showsTag_of_keyText (hkeys.text e he)⟩

/-- A mapping with tags on a number, on a string among the values, and on a sequence. -/
def taggedValues : Yaml :=
  .map [(.tagged "x" (.num (.int 200)), .tagged "y" (.str "a")),
    (.str "b", .tagged "z" (.seq [.tagged "y" .null]))]

/-- A mapping with a tag on a key that is a string. -/
def taggedName : Yaml := .map [(.tagged "x" (.str "a"), .num (.int 1))]

theorem toJson_untagged_taggedValues :
    parse? "!x 200: !y a\nb: !z [!y null]" = some taggedValues ∧
    taggedValues.untagged.toJson = taggedValues.toJson ∧
    taggedName.untagged.toJson ≠ taggedName.toJson := by
  refine ⟨by decide +kernel, ?_, fun h => ?_⟩
  · refine (toJson_untagged taggedValues).2.1 fun es hpart => ?_
    -- the mapping itself is the only one
    cases hpart with
    | self =>
      refine ⟨List.pairwise_pair.mpr (by decide +kernel), fun e he hshows => ?_⟩
      rcases List.mem_pair.mp he with rfl | rfl
      · cases hshows with | tagged _ htexts => cases htexts
      · cases hshows
    | key he hpart =>
      rcases List.mem_pair.mp he with rfl | rfl
      · cases hpart with | tagged hpart => cases hpart
      · cases hpart
    | value he hpart =>
      rcases List.mem_pair.mp he with rfl | rfl
      · cases hpart with | tagged hpart => cases hpart
      · cases hpart with
        | tagged hpart =>
          cases hpart with
          | item hv hpart =>
            cases List.mem_singleton.mp hv
            cases hpart with | tagged hpart => cases hpart
  · have hkeeps : taggedName.KeepsEntries := by
      intro es hes
      cases hes with
      | self => exact List.nodup_singleton _
      | value he hes =>
        cases List.mem_singleton.mp he
        cases hes
    exact ((toJson_untagged taggedName).2.2 hkeeps h _ .self).2 _ (List.mem_singleton_self _)
      (.tagged "x" (.str "a"))

/-- **A tag that stays.** The name below the tag is put in quotes. -/
theorem taggedName_quoted :
    parse? "!x a: 1" = some taggedName ∧
    taggedName.toJson = .obj [("\"a\"", .num (.int 1))] ∧
    taggedName.untagged.toJson = .obj [("a", .num (.int 1))] := by
  decide +kernel

end Yaml

end SecurityScan
