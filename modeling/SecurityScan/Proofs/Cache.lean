import SecurityScan.Proofs.Expansion

namespace SecurityScan.Specification

/-!
# When the cache shows

The resolver that remembers nothing, and the documents on which the resolver with its cache gives
the same.

* `followAfresh` and `dereferenceAfresh` — the resolver without its cache;
* `expansion` — what that resolver answers, as a function of the room left and the open references;
* `outermost` — the references of a document that are met with no reference open;
* `dereference_eq_afresh_iff` — the cache does not show exactly if, for every outermost reference,
  what was worked out when the reference was first met is what it expands to on its own;
* `dereference_ne_afresh` — two objects that refer to each other are enough to make it show;
* `dereference_eq_afresh_of_expands` — where references expand, the cache never shows.
-/

/-! ### The resolver without a cache -/

/-- `follow` without a cache: a reference is worked out each time it is met. -/
def followAfresh (doc : Json) : (room : Nat) → String → Resolving (Option Json)
  | 0, _ => return none
  | room + 1, reference => do
    let known ← get
    if known.active.contains reference then return none
    match targetOf doc reference with
    | .error _ => return none
    | .ok target =>
      set { known with active := reference :: known.active }
      let v ← rebuild (followAfresh doc room) target
      modify fun r => { r with active := r.active.erase reference }
      return some v

/-- `dereference` without a cache. -/
def dereferenceAfresh (doc : Json) : Json :=
  (rebuild (followAfresh doc maxOpenReferences) doc ⟨[], []⟩).1

/-- What a reference is replaced by on its own: with no other reference open and nothing
    remembered. -/
def ownExpansion (doc : Json) (r : String) : Option Json :=
  (followAfresh doc maxOpenReferences r ⟨[], []⟩).1

/-- The answer of the resolver without a cache, as a function of what it depends on. -/
def expansion (doc : Json) : (room : Nat) → (active : List String) → String → Option Json
  | 0, _, _ => none
  | room + 1, active, r =>
    if active.contains r then none
    else match targetOf doc r with
      | .error _ => none
      | .ok target => some (substitute (expansion doc room (r :: active)) target)

theorem followAfresh_succ (doc : Json) (room : Nat) (r : String) (s : Resolution) :
    followAfresh doc (room + 1) r s =
      if s.active.contains r then (none, s)
      else match targetOf doc r with
        | .error _ => (none, s)
        | .ok target =>
          let inner := rebuild (followAfresh doc room) target ⟨s.cache, r :: s.active⟩
          (some inner.1, ⟨inner.2.cache, inner.2.active.erase r⟩) := by
  simp only [followAfresh, bind, StateT.bind, get, getThe, MonadStateOf.get, StateT.get, pure, Id]
  by_cases h : s.active.contains r = true
  · simp only [h, if_true]; rfl
  · simp only [h]
    cases ht : targetOf doc r <;> rfl

/-- Without a cache the state is the same after every answer. -/
theorem followAfresh_eq_expansion (doc : Json) (room : Nat) (r : String) (s : Resolution) :
    followAfresh doc room r s = (expansion doc room s.active r, s) := by
  induction room generalizing r s with
  | zero => rfl
  | succ room ih =>
    rw [followAfresh_succ, expansion]
    by_cases hopen : s.active.contains r = true
    · rw [if_pos hopen, if_pos hopen]
    · rw [if_neg hopen, if_neg hopen]
      cases ht : targetOf doc r with
      | error _ => rfl
      | ok target =>
        have hinner := rebuild_of_stateless (fun q => ih q ⟨s.cache, r :: s.active⟩) target
        simp only [hinner, List.erase_cons_head]

theorem ownExpansion_eq (doc : Json) :
    ownExpansion doc = expansion doc maxOpenReferences [] := by
  funext r
  rw [ownExpansion, followAfresh_eq_expansion]

/-- Dereferencing afresh is one substitution, too. -/
theorem dereferenceAfresh_eq_substitute (doc : Json) :
    dereferenceAfresh doc = substitute (ownExpansion doc) doc := by
  rw [dereferenceAfresh, rebuild_of_stateless fun r =>
    followAfresh_eq_expansion doc maxOpenReferences r ⟨[], []⟩, ownExpansion_eq]

/-- With no reference open, only a reference that leads nowhere has no expansion. -/
theorem ownExpansion_eq_none_iff (doc : Json) (r : String) :
    ownExpansion doc r = none ↔ ∀ target, targetOf doc r ≠ .ok target := by
  rw [ownExpansion_eq, maxOpenReferences, expansion]
  cases ht : targetOf doc r <;> simp

/-! ### Outermost references -/

mutual

/-- The references in a value that lead somewhere and stand in no other such reference. -/
def outermost (doc : Json) : Json → List String
  | .obj ms => match refOf? ms with
    | some r => match targetOf doc r with
      | .ok _ => [r]
      | .error _ => outermostOfMembers doc ms
    | none => outermostOfMembers doc ms
  | .arr vs => outermostOfItems doc vs
  | _ => []

/-- The outermost references in the items. -/
def outermostOfItems (doc : Json) : List Json → List String
  | [] => []
  | v :: vs => outermost doc v ++ outermostOfItems doc vs

/-- The outermost references in the members' values. -/
def outermostOfMembers (doc : Json) : List (String × Json) → List String
  | [] => []
  | (_, v) :: ms => outermost doc v ++ outermostOfMembers doc ms

end

section

variable {doc : Json} {f g : String → Option Json}

mutual

/-- Two substitutions that answer exactly the references that lead somewhere agree on a value if
    and only if they agree on its outermost references. -/
theorem substitute_eq_iff (hf : ∀ r, f r = none ↔ ∀ target, targetOf doc r ≠ .ok target)
    (hg : ∀ r, g r = none ↔ ∀ target, targetOf doc r ≠ .ok target) :
    ∀ v, substitute f v = substitute g v ↔ ∀ r ∈ outermost doc v, f r = g r
  | .obj ms => by
    have hmembers := substituteMembers_eq_iff hf hg ms
    cases hr : refOf? ms with
    | none => simp [substitute, outermost, hr, hmembers]
    | some r =>
      cases ht : targetOf doc r with
      | ok target =>
        -- both answer, and nothing beside the reference counts
        have hfr : f r ≠ none := fun h => (hf r).mp h target ht
        have hgr : g r ≠ none := fun h => (hg r).mp h target ht
        obtain ⟨a, ha⟩ := Option.ne_none_iff_exists'.mp hfr
        obtain ⟨b, hb⟩ := Option.ne_none_iff_exists'.mp hgr
        simp [substitute, outermost, hr, ht, ha, hb]
      | error _ =>
        -- neither answers, and the members beside the reference count
        have hfr : f r = none := (hf r).mpr (by simp [ht])
        have hgr : g r = none := (hg r).mpr (by simp [ht])
        simp [substitute, outermost, hr, ht, hfr, hgr, hmembers]
  | .arr vs => by simp [substitute, outermost, substituteItems_eq_iff hf hg vs]
  | .null | .bool _ | .num _ | .str _ => by simp [substitute, outermost]

theorem substituteItems_eq_iff (hf : ∀ r, f r = none ↔ ∀ target, targetOf doc r ≠ .ok target)
    (hg : ∀ r, g r = none ↔ ∀ target, targetOf doc r ≠ .ok target) :
    ∀ vs, substituteItems f vs = substituteItems g vs ↔ ∀ r ∈ outermostOfItems doc vs, f r = g r
  | [] => by simp [substituteItems, outermostOfItems]
  | v :: vs => by
    simp [substituteItems, outermostOfItems, substitute_eq_iff hf hg v,
      substituteItems_eq_iff hf hg vs, or_imp, forall_and]

theorem substituteMembers_eq_iff (hf : ∀ r, f r = none ↔ ∀ target, targetOf doc r ≠ .ok target)
    (hg : ∀ r, g r = none ↔ ∀ target, targetOf doc r ≠ .ok target) :
    ∀ ms, substituteMembers f ms = substituteMembers g ms ↔
      ∀ r ∈ outermostOfMembers doc ms, f r = g r
  | [] => by simp [substituteMembers, outermostOfMembers]
  | (k, v) :: ms => by
    simp [substituteMembers, outermostOfMembers, substitute_eq_iff hf hg v,
      substituteMembers_eq_iff hf hg ms, or_imp, forall_and]

end

end

/-! ### Transparency -/

/-- **Transparency.** A document is dereferenced as without a cache exactly if every outermost
    reference was replaced, when it was first met, by what it expands to on its own: no other
    reference that was open then, no lack of room and nothing remembered had cut it short. -/
theorem dereference_eq_afresh_iff (doc : Json) :
    dereference doc = dereferenceAfresh doc ↔
      ∀ r ∈ outermost doc doc, replacement doc r = ownExpansion doc r := by
  rw [dereference_eq_substitute, dereferenceAfresh_eq_substitute]
  exact substitute_eq_iff (replacement_eq_none_iff doc) (ownExpansion_eq_none_iff doc) doc

/-- Two objects that refer to each other: the second one is first met inside the first. -/
def mutualDocument : Json := .obj [
  ("A", .obj [("b", .obj [("$ref", .str "#/B")])]),
  ("B", .obj [("a", .obj [("$ref", .str "#/A")])])]

/-- The cache shows where references are mutually recursive. -/
theorem dereference_ne_afresh : dereference mutualDocument ≠ dereferenceAfresh mutualDocument := by
  decide +kernel

/-! ### Where references expand -/

theorem expansion_of_broken {doc : Json} {r : String}
    (hr : ∀ target, targetOf doc r ≠ .ok target) (room : Nat) (active : List String) :
    expansion doc room active r = none := by
  cases room with
  | zero => rfl
  | succ room =>
    rw [expansion]
    cases ht : targetOf doc r with
    | error _ => simp
    | ok target => exact absurd ht (hr target)

/-- Without a cache, too, a value is turned into its expansion while there is room. -/
theorem rebuildAfresh_of_expands {doc : Json} (room : Nat) :
    ∀ n ≤ room, ∀ v w s, Expands doc n v w → Ready doc n s →
      (rebuild (followAfresh doc room) v s).1 = w := by
  have hbroken : ∀ room n r s, Ready doc n s → (∀ target, targetOf doc r ≠ .ok target) →
      followAfresh doc room r s = (none, s) := by
    intro room n r s _ hr
    rw [followAfresh_eq_expansion, expansion_of_broken hr]
  induction room with
  | zero =>
    intro n hn v w s h hs
    exact (rebuild_of_answers (fun m hm => absurd hm (Nat.not_lt_zero m)) (hbroken 0) h hn s hs).1
  | succ room ih =>
    intro n hn v w s h hs
    refine (rebuild_of_answers (fun m hm r target w s ht hw hs => ?_) (hbroken (room + 1)) h hn
      s hs).1
    -- the state is as before, so only the answer is to be shown
    obtain ⟨k, hk, hwk, hopen⟩ := hs.exists_open ht hw
    have hinner := ih k (by omega) target w _ hwk hopen
    rw [rebuild_of_stateless fun q =>
      followAfresh_eq_expansion doc room q ⟨s.cache, r :: s.active⟩] at hinner
    rw [followAfresh_eq_expansion, expansion, if_neg (by simpa using hs.not_mem ht hw), ht]
    exact ⟨congrArg some hinner, hs⟩

/-- Where at most fifty references are nested, and so in no circles, the cache does not show. -/
theorem dereference_eq_afresh_of_expands {doc w : Json} (h : Expands doc 50 doc w) :
    dereference doc = dereferenceAfresh doc := by
  have hready : Ready doc 50 ⟨[], []⟩ := .start doc 50
  have hcached : dereference doc = w :=
    (rebuild_of_expands maxOpenReferences 50 (Nat.le_refl 50) doc w _ h hready).1
  have hafresh : dereferenceAfresh doc = w :=
    rebuildAfresh_of_expands maxOpenReferences 50 (Nat.le_refl 50) doc w _ h hready
  rw [hcached, hafresh]

end SecurityScan.Specification
