import SecurityScan.Proofs.Cache
import SecurityScan.Proofs.Mention

namespace SecurityScan.Specification

/-!
# What a value reaches

The keys and strings that a reader finds in a value who follows its references, and that none of
them is lost when references are expanded on their own.

* `Trail` — a key or string is found through at most so many references, none of them among those
  to avoid;
* `Reaches` — a key or string is found, whatever references lead to it;
* `Trail.avoid` — a trail that comes back to a reference can be cut short;
* `mem_texts_of_trail` — so expanding a value with as much room as a trail needs keeps its end,
  although references in circles stay;
* `mem_texts_of_reaches` — and so does the resolver, where what it holds is whole.
-/

/-- `Trail doc avoid n v t`: going down from `v` and following at most `n` references inside one
    another, none of them in `avoid`, one finds the key or string `t`.  An object that refers is
    left for the place it leads to. -/
inductive Trail (doc : Json) (avoid : List String) : Nat → Json → String → Prop where
  | text {n : Nat} {s : String} : Trail doc avoid n (.str s) s
  | key {n : Nat} {ms : Members} {k : String} {v : Json} :
      refOf? ms = none → (k, v) ∈ ms → Trail doc avoid n (.obj ms) k
  | member {n : Nat} {ms : Members} {k t : String} {v : Json} :
      refOf? ms = none → (k, v) ∈ ms → Trail doc avoid n v t → Trail doc avoid n (.obj ms) t
  | item {n : Nat} {vs : List Json} {v : Json} {t : String} :
      v ∈ vs → Trail doc avoid n v t → Trail doc avoid n (.arr vs) t
  | reference {n : Nat} {ms : Members} {r t : String} {target : Json} :
      refOf? ms = some r → r ∉ avoid → targetOf doc r = .ok target → Trail doc avoid n target t →
      Trail doc avoid (n + 1) (.obj ms) t

/-- Going down from `v` and following at most `n` references inside one another, one finds the key
    or string `t`. -/
def Reaches (doc : Json) (n : Nat) (v : Json) (t : String) : Prop := Trail doc [] n v t

/-- **Circles can be cut out.** A trail does without the reference `r`, or there is a shorter one
    from the place `r` leads to, which does without it. -/
theorem Trail.avoid {doc v : Json} {avoid : List String} {n : Nat} {t : String} (r : String)
    (h : Trail doc avoid n v t) :
    Trail doc (r :: avoid) n v t ∨
      ∃ m < n, ∃ target, targetOf doc r = .ok target ∧ Trail doc (r :: avoid) m target t := by
  induction h with
  | text => exact .inl .text
  | key hr hmem => exact .inl (.key hr hmem)
  | member hr hmem _ ih => exact ih.imp_left (.member hr hmem)
  | item hmem _ ih => exact ih.imp_left (.item hmem)
  | @reference n ms q t target hr havoid ht _ ih =>
    rcases ih with hrest | ⟨m, hm, hshort⟩
    · by_cases hq : q = r
      · -- the trail comes to `r` here for the last time
        subst hq
        exact .inr ⟨n, Nat.lt_succ_self n, target, ht, hrest⟩
      · exact .inl (.reference hr (by simp [hq, havoid]) ht hrest)
    · exact .inr ⟨m, Nat.lt_succ_of_lt hm, hshort⟩

/-- If what a reference is replaced by holds the ends of the trails through it, a value keeps the
    ends of its trails. -/
theorem mem_texts_substitute {doc : Json} {avoid : List String} {f : String → Option Json}
    {room : Nat}
    (hf : ∀ n < room, ∀ r target t, r ∉ avoid → targetOf doc r = .ok target →
      Trail doc avoid n target t → ∃ w, f r = some w ∧ t ∈ w.texts)
    {n : Nat} {v : Json} {t : String} (h : Trail doc avoid n v t) (hn : n ≤ room) :
    t ∈ (substitute f v).texts := by
  -- an object that does not refer keeps its keys and its members
  have hobj : ∀ ms : Members, refOf? ms = none →
      (substitute f (.obj ms)).texts = Json.textsOfMembers (substituteMembers f ms) := by
    intro ms hr
    rw [substitute, hr, Option.bind_none, Json.texts]
  induction h with
  | text => exact List.mem_singleton_self _
  | key hr hmem =>
    rw [hobj _ hr, substituteMembers_eq_map, Json.mem_textsOfMembers]
    exact ⟨_, List.mem_map_of_mem hmem, .inl rfl⟩
  | member hr hmem _ ih =>
    rw [hobj _ hr, substituteMembers_eq_map, Json.mem_textsOfMembers]
    exact ⟨_, List.mem_map_of_mem hmem, .inr (ih hn)⟩
  | item hmem _ ih =>
    rw [substitute, substituteItems_eq_map, Json.texts, Json.mem_textsOfItems]
    exact ⟨_, List.mem_map_of_mem hmem, ih hn⟩
  | reference hr havoid ht htrail _ =>
    obtain ⟨w, hw, hmem⟩ := hf _ hn _ _ _ havoid ht htrail
    rw [substitute_obj_of_some (by rw [hr, Option.bind_some, hw])]
    exact hmem

/-- **Expansion keeps what is reached.** With room for the references of a trail, the end of the
    trail stands in the expanded value, although no reference is opened twice. -/
theorem mem_texts_of_trail {doc : Json} (room : Nat) :
    ∀ {active : List String} {n : Nat} {v : Json} {t : String}, Trail doc active n v t →
      n ≤ room → t ∈ (substitute (expansion doc room active) v).texts := by
  induction room with
  | zero => exact mem_texts_substitute fun n hn => absurd hn (Nat.not_lt_zero n)
  | succ room ih =>
    intro active n v t
    refine mem_texts_substitute fun n hn r target t hactive ht htrail => ?_
    refine ⟨substitute (expansion doc room (r :: active)) target, ?_, ?_⟩
    · rw [expansion, if_neg (by simpa using hactive), ht]
    · -- either the trail goes on without `r`, or a shorter one starts from the same place
      rcases htrail.avoid r with hrest | ⟨m, hm, target', ht', hshort⟩
      · exact ih hrest (Nat.lt_succ_iff.mp hn)
      · cases ht.symm.trans ht'
        exact ih hshort (by omega)

/-- If what the resolver holds for the outermost references of a value is whole, the value keeps
    what it reaches through fifty references. -/
theorem mem_texts_of_reaches {doc v : Json} {t : String} (h : Reaches doc 50 v t)
    (hwhole : ∀ r ∈ outermost doc v, replacement doc r = ownExpansion doc r) :
    t ∈ (substitute (replacement doc) v).texts := by
  have hown : substitute (replacement doc) v = substitute (ownExpansion doc) v :=
    (substitute_eq_iff (replacement_eq_none_iff doc) (ownExpansion_eq_none_iff doc) v).mpr hwhole
  rw [hown, ownExpansion_eq]
  exact mem_texts_of_trail maxOpenReferences h (Nat.le_refl 50)

end SecurityScan.Specification
