import SecurityScan.Proofs.Replacement
import SecurityScan.Proofs.Parts
import SecurityScan.Proofs.Exposure

namespace SecurityScan

open Specification Text

/-!
# Dereferencing invents nothing

Where the parts of a dereferenced document come from.

* `rebuild_keeps` and `follow_keeps` — a run keeps what parts inherit: of what it answers, of what
  it remembers, and of what it rebuilds;
* `dereference_keeps` — so a dereferenced document has every inherited property of the document;
* `uniqueKeys_dereference` — in particular it repeats no key;
* `WrittenIn` — the keys and scalars of a value stand in the document;
* `dereference_invents_nothing` — those of the dereferenced document do, and so does whatever a rule
  finds mentioned in it.
-/

/-! ### Runs keep inherited properties -/

namespace Specification

/-- Whatever is remembered has the property. -/
def Resolution.Remembers (P : Json → Prop) (s : Resolution) : Prop :=
  ∀ r v, s.cache.lookup r = some v → P v

section

variable {P : Json → Prop} {F : String → Resolving (Option Json)}

mutual

/-- **Run.** If answers have an inherited property and only what has it is remembered, a value with
    the property is rebuilt to one, and only what has it is remembered afterwards. -/
theorem rebuild_keeps (hP : Inherited P)
    (hF : ∀ r s, s.Remembers P → (∀ w, (F r s).1 = some w → P w) ∧ (F r s).2.Remembers P) :
    ∀ (v : Json) (s : Resolution), P v → s.Remembers P →
      P (rebuild F v s).1 ∧ (rebuild F v s).2.Remembers P
  | .obj ms, s, hv, hs => by
    have hmembers : ∀ s : Resolution, s.Remembers P →
        P (.obj (rebuildMembers F ms s).1) ∧ (rebuildMembers F ms s).2.Remembers P := by
      intro s hs
      obtain ⟨hkeys, hvalues, hend⟩ := rebuildMembers_keeps hP hF ms s (hP.member hv) hs
      exact ⟨hP.obj hv hkeys hvalues, hend⟩
    cases hr : refOf? ms with
    | none =>
      rw [rebuild_obj_none F hr]
      exact hmembers s hs
    | some r =>
      obtain ⟨hanswer, hafter⟩ := hF r s hs
      rw [rebuild_obj_some F hr]
      cases ha : (F r s).1 with
      | some t => exact ⟨hanswer t ha, hafter⟩
      | none => exact hmembers _ hafter
  | .arr vs, s, hv, hs => by
    obtain ⟨hitems, hend⟩ := rebuildItems_keeps hP hF vs s (hP.item hv) hs
    rw [rebuild_arr]
    exact ⟨hP.arr hv hitems, hend⟩
  | .null, _, hv, hs | .bool _, _, hv, hs | .num _, _, hv, hs | .str _, _, hv, hs => ⟨hv, hs⟩

theorem rebuildItems_keeps (hP : Inherited P)
    (hF : ∀ r s, s.Remembers P → (∀ w, (F r s).1 = some w → P w) ∧ (F r s).2.Remembers P) :
    ∀ (vs : List Json) (s : Resolution), (∀ v ∈ vs, P v) → s.Remembers P →
      (∀ w ∈ (rebuildItems F vs s).1, P w) ∧ (rebuildItems F vs s).2.Remembers P
  | [], _, _, hs => ⟨fun _ hw => absurd hw List.not_mem_nil, hs⟩
  | v :: vs, s, hvs, hs => by
    obtain ⟨hv, hvs⟩ := List.forall_mem_cons.mp hvs
    obtain ⟨hw, hmid⟩ := rebuild_keeps hP hF v s hv hs
    obtain ⟨hws, hend⟩ := rebuildItems_keeps hP hF vs _ hvs hmid
    rw [rebuildItems_cons]
    exact ⟨List.forall_mem_cons.mpr ⟨hw, hws⟩, hend⟩

theorem rebuildMembers_keeps (hP : Inherited P)
    (hF : ∀ r s, s.Remembers P → (∀ w, (F r s).1 = some w → P w) ∧ (F r s).2.Remembers P) :
    ∀ (ms : List (String × Json)) (s : Resolution), (∀ p ∈ ms, P p.2) → s.Remembers P →
      Members.keys (rebuildMembers F ms s).1 = Members.keys ms ∧
        (∀ p ∈ (rebuildMembers F ms s).1, P p.2) ∧ (rebuildMembers F ms s).2.Remembers P
  | [], _, _, hs => ⟨rfl, fun _ hp => absurd hp List.not_mem_nil, hs⟩
  | (k, v) :: ms, s, hms, hs => by
    obtain ⟨hv, hms⟩ := List.forall_mem_cons.mp hms
    obtain ⟨hw, hmid⟩ := rebuild_keeps hP hF v s hv hs
    obtain ⟨hkeys, hvalues, hend⟩ := rebuildMembers_keeps hP hF ms _ hms hmid
    rw [rebuildMembers_cons]
    exact ⟨congrArg (k :: ·) hkeys, List.forall_mem_cons.mpr ⟨hw, hvalues⟩, hend⟩

end

end

section

variable {P : Json → Prop} {doc : Json}

/-- **Step.** In a document with an inherited property, the resolver answers references with values
    that have it, and remembers no others. -/
theorem follow_keeps (hP : Inherited P) (hdoc : P doc) (room : Nat) (r : String) (s : Resolution)
    (hs : s.Remembers P) :
    (∀ w, (follow doc room r s).1 = some w → P w) ∧ (follow doc room r s).2.Remembers P := by
  -- on the room: the target is rebuilt with one reference less
  induction room generalizing r s with
  | zero => exact ⟨by rintro _ ⟨⟩, hs⟩
  | succ room ih =>
    rw [follow_succ]
    by_cases hopen : s.active.contains r = true
    · rw [if_pos hopen]
      exact ⟨by rintro _ ⟨⟩, hs⟩
    · rw [if_neg hopen]
      cases hc : s.cache.lookup r with
      | some v =>
        refine ⟨fun w hw => ?_, hs⟩
        cases hw
        exact hs r v hc
      | none =>
        cases ht : targetOf doc r with
        | error _ => exact ⟨by rintro _ ⟨⟩, hs⟩
        | ok target =>
          obtain ⟨hw, hend⟩ := rebuild_keeps hP ih target ⟨s.cache, r :: s.active⟩
            (hP.of_part (part_of_targetOf ht) hdoc) hs
          refine ⟨fun w hw' => ?_, fun q v hv => ?_⟩
          · cases hw'
            exact hw
          · -- the new entry is what has just been rebuilt
            by_cases hq : q = r
            · rw [hq, List.lookup_cons_self, Option.some.injEq] at hv
              exact hv ▸ hw
            · rw [List.lookup_cons, beq_false_of_ne hq] at hv
              exact hend q v hv

/-- **A dereferenced document keeps what parts inherit.** -/
theorem dereference_keeps (hP : Inherited P) (hdoc : P doc) : P (dereference doc) :=
  (rebuild_keeps hP (follow_keeps hP hdoc maxOpenReferences) doc ⟨[], []⟩ hdoc
    (by simp [Resolution.Remembers])).1

/-- No object of a dereferenced document repeats a key. -/
theorem uniqueKeys_dereference (hdoc : doc.UniqueKeys) : (dereference doc).UniqueKeys :=
  dereference_keeps inherited_uniqueKeys hdoc

end

/-! ### Keys, scalars and mentions -/

/-- The keys and scalars of a value stand in the document: every object in it has the keys of an
    object of the document, in their order. -/
structure WrittenIn (doc v : Json) : Prop where
  keys : ∀ ms : Members, v.Part (.obj ms) →
    ∃ ms' : Members, doc.Part (.obj ms') ∧ ms'.keys = ms.keys
  scalars : ∀ x : Json, x.isScalar = true → v.Part x → doc.Part x

theorem writtenIn_of_part {doc v : Json} (h : doc.Part v) : WrittenIn doc v where
  keys ms hms := ⟨ms, h.trans hms, rfl⟩
  scalars _ _ hx := h.trans hx

theorem inherited_writtenIn (doc : Json) : Inherited (WrittenIn doc) where
  item hvs _ hv :=
    ⟨fun ms h => hvs.keys ms (.item hv h), fun x hx h => hvs.scalars x hx (.item hv h)⟩
  member hms _ hp :=
    ⟨fun ms h => hms.keys ms (.member hp h), fun x hx h => hms.scalars x hx (.member hp h)⟩
  arr _ hws := by
    refine ⟨fun ms h => ?_, fun x hx h => ?_⟩
    · cases h with
      | item hmem h => exact (hws _ hmem).keys ms h
    · cases h with
      | self => cases hx
      | item hmem h => exact (hws _ hmem).scalars x hx h
  obj hms hkeys hms' := by
    refine ⟨fun ms h => ?_, fun x hx h => ?_⟩
    · cases h with
      | self =>
        -- the object at the top has the keys that it had before
        obtain ⟨ms₀, hpart, hkeys₀⟩ := hms.keys _ .self
        exact ⟨ms₀, hpart, hkeys₀.trans hkeys.symm⟩
      | member hmem h => exact (hms' _ hmem).keys ms h
    · cases h with
      | self => cases hx
      | member hmem h => exact (hms' _ hmem).scalars x hx h

theorem writtenIn_dereference (doc : Json) : WrittenIn doc (dereference doc) :=
  dereference_keeps (inherited_writtenIn doc) (writtenIn_of_part .self)

end Specification

/-- The texts of a value are the strings and the keys of the objects in it. -/
theorem Json.mem_texts_iff {v : Json} {t : String} :
    t ∈ v.texts ↔ v.Part (.str t) ∨ ∃ ms : Members, v.Part (.obj ms) ∧ t ∈ ms.keys := by
  induction v using Json.induct with
  | str s =>
    rw [texts, List.mem_singleton]
    constructor
    · rintro rfl
      exact .inl .self
    · rintro (h | ⟨_, ⟨⟩, _⟩)
      cases h
      rfl
  | arr vs ih =>
    rw [texts, mem_textsOfItems]
    constructor
    · rintro ⟨v, hv, ht⟩
      exact ((ih v hv).mp ht).imp (.item hv) fun ⟨ms, hms, hk⟩ => ⟨ms, .item hv hms, hk⟩
    · rintro (h | ⟨ms, h, hk⟩)
      · cases h with
        | item hv h => exact ⟨_, hv, (ih _ hv).mpr (.inl h)⟩
      · cases h with
        | item hv h => exact ⟨_, hv, (ih _ hv).mpr (.inr ⟨ms, h, hk⟩)⟩
  | obj ms ih =>
    rw [texts, mem_textsOfMembers]
    constructor
    · rintro ⟨p, hp, rfl | ht⟩
      · exact .inr ⟨ms, .self, List.mem_map_of_mem hp⟩
      · exact ((ih p hp).mp ht).imp (.member hp) fun ⟨ms', hms', hk⟩ => ⟨ms', .member hp hms', hk⟩
    · rintro (h | ⟨ms', h, hk⟩)
      · cases h with
        | member hp h => exact ⟨_, hp, .inr ((ih _ hp).mpr (.inl h))⟩
      · cases h with
        | self =>
          obtain ⟨p, hp, rfl⟩ := List.mem_map.mp hk
          exact ⟨p, hp, .inl rfl⟩
        | member hp h => exact ⟨_, hp, .inr ((ih _ hp).mpr (.inr ⟨ms', h, hk⟩))⟩
  | null | bool | num =>
    constructor
    · intro h
      simp [texts] at h
    · rintro (h | ⟨_, ⟨⟩, _⟩)
      cases h

namespace Specification

theorem WrittenIn.texts_subset {doc v : Json} (h : WrittenIn doc v) : v.texts ⊆ doc.texts := by
  intro t ht
  rcases Json.mem_texts_iff.mp ht with hstr | ⟨ms, hms, hk⟩
  · exact Json.mem_texts_iff.mpr (.inl (h.scalars _ rfl hstr))
  · obtain ⟨ms', hms', hkeys⟩ := h.keys ms hms
    exact Json.mem_texts_iff.mpr (.inr ⟨ms', hms', hkeys ▸ hk⟩)

end Specification

/-- The schema that a finding on data exposure is about is part of the document. -/
theorem Rule.DataExposure.exists_part_of_mem_check {doc : Json} {f : Finding}
    (h : f ∈ check doc) : ∃ schema, doc.Part schema ∧ IsSensitive schema := by
  obtain ⟨o, ho, responses, hresponses, code, response, hresponse, hf⟩ := mem_check_iff.mp h
  obtain ⟨_, schema, hschema, hsensitive⟩ := mem_checkResponse.mp hf
  obtain ⟨item, hitem, _, hnode⟩ := mem_operations.mp ho
  obtain ⟨paths, hpaths, hentry⟩ := mem_pathItems.mp hitem
  have hoperation : doc.Part o.node :=
    (Json.part_of_get? hpaths).trans
      ((Json.part_of_mem_entries hentry).trans (Json.part_of_mem_entries hnode))
  have hresponsePart : o.node.Part response :=
    (Json.part_of_get? hresponses).trans (Json.part_of_mem_entries hresponse)
  exact ⟨schema, hoperation.trans (hresponsePart.trans (Json.part_of_at? hschema)), hsensitive⟩

/-- **Dereferencing invents nothing.** Every key of an object in a dereferenced document is a key of
    an object in the document, and every scalar in it stands in the document.  So a word of the
    rules that some part of the dereferenced document mentions, the document mentions, and every
    finding on data exposure is due to a key or string of the document. -/
theorem dereference_invents_nothing (doc : Json) :
    (∀ ms : Members, (dereference doc).Part (.obj ms) → ∀ k ∈ ms.keys,
        ∃ ms' : Members, doc.Part (.obj ms') ∧ k ∈ ms'.keys) ∧
      (∀ x : Json, x.isScalar = true → (dereference doc).Part x → doc.Part x) ∧
      (∀ word ∈ Rule.RateLimiting.keyword :: Rule.DataExposure.keywords,
        ∀ v, (dereference doc).Part v → mentions v.chars word = true →
          mentions doc.chars word = true) ∧
      ∀ f ∈ Rule.DataExposure.check (dereference doc),
        ∃ word ∈ Rule.DataExposure.keywords, ∃ s ∈ doc.texts,
          mentions (Json.escape s.toList) word = true := by
  have hwritten : WrittenIn doc (dereference doc) := writtenIn_dereference doc
  -- what a part mentions, some key or string of the document mentions
  have hmention : ∀ word ∈ Rule.RateLimiting.keyword :: Rule.DataExposure.keywords,
      ∀ v, (dereference doc).Part v → mentions v.chars word = true →
        ∃ s ∈ doc.texts, mentions (Json.escape s.toList) word = true := by
    intro word hword v hpart hm
    obtain ⟨s, hs, hm⟩ := Json.exists_mentions_escape (searchable_of_mem hword) hm
    exact ⟨s, ((inherited_writtenIn doc).of_part hpart hwritten).texts_subset hs, hm⟩
  refine ⟨fun ms hms k hk => ?_, hwritten.scalars, fun word hword v hpart hm => ?_, fun f hf => ?_⟩
  · obtain ⟨ms', hms', hkeys⟩ := hwritten.keys ms hms
    exact ⟨ms', hms', hkeys ▸ hk⟩
  · obtain ⟨s, hs, hm⟩ := hmention word hword v hpart hm
    exact Json.mentions_chars_of_escape hs hm
  · obtain ⟨schema, hpart, _, word, hword, hm⟩ := Rule.DataExposure.exists_part_of_mem_check hf
    exact ⟨word, hword, hmention word (List.mem_cons_of_mem _ hword) schema hpart hm⟩

end SecurityScan
