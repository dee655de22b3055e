import SecurityScan.Proofs.Mention
import SecurityScan.Proofs.UniqueKeys

namespace SecurityScan

/-!
# Members left out

A value without some of its members, and what can still be found in it.

* `Json.without` — a value without the members at some places;
* `get?_withoutMembers`, `at?_without_self` and `at?_without` — a lookup finds nothing at these places,
  and what it found before at places apart from them;
* `texts_without_subset` and `mem_texts_without` — of the keys and strings of the value only those at
  the places can be gone;
* `mem_texts_of_at?` — the last key of a place where something stands is one of them.
-/

namespace Json

mutual

/-- The value without the members at some places.  A place is the keys that lead to it. -/
def without (gone : List String → Bool) : Json → Json
  | .obj ms => .obj (withoutMembers gone ms)
  | v => v

/-- The members without those at some places. -/
def withoutMembers (gone : List String → Bool) : List (String × Json) → List (String × Json)
  | [] => []
  | (k, v) :: ms =>
    if gone [k] then withoutMembers gone ms
    else (k, without (fun path => gone (k :: path)) v) :: withoutMembers gone ms

end

theorem withoutMembers_eq_map (gone : List String → Bool) (ms : Members) :
    withoutMembers gone ms = (ms.filter fun p => !gone [p.1]).map fun p =>
      (p.1, p.2.without fun path => gone (p.1 :: path)) := by
  induction ms with
  | nil => rfl
  | cons p ms ih =>
    obtain ⟨k, v⟩ := p
    cases hk : gone [k] <;> simp [withoutMembers, hk, ih]

theorem keys_withoutMembers (gone : List String → Bool) (ms : Members) :
    (Members.keys (withoutMembers gone ms)).Sublist ms.keys := by
  have hkeys : Members.keys (withoutMembers gone ms) =
      (ms.filter fun p => !gone [p.1]).map (·.1) := by
    rw [withoutMembers_eq_map, Members.keys, List.map_map]
    rfl
  rw [hkeys]
  exact List.filter_sublist.map _

theorem get?_withoutMembers (gone : List String → Bool) (ms : Members) (key : String) :
    Members.get? (withoutMembers gone ms) key =
      if gone [key] then none
      else (ms.get? key).map (without fun path => gone (key :: path)) := by
  induction ms with
  | nil => simp [withoutMembers, Members.get?]
  | cons p ms ih =>
    obtain ⟨k, v⟩ := p
    by_cases hk : k = key
    · subst hk
      cases hgone : gone [k] <;> simp [withoutMembers, Members.get?, hgone, ih]
    · cases hgone : gone [k] <;> simp [withoutMembers, Members.get?, hgone, hk, ih]

/-- Nothing changes where nothing is left out. -/
theorem without_never (v : Json) : v.without (fun _ => false) = v := by
  induction v using Json.induct with
  | null | bool | num | str | arr => rfl
  | obj ms ih =>
    have hall : ms.filter (fun p => !false) = ms := List.filter_eq_self.mpr fun _ _ => rfl
    have hsame : ms.map (fun p => (p.1, p.2.without fun _ => false)) = ms := by
      refine (List.map_congr_left fun p hp => ?_).trans (List.map_id ms)
      rw [ih p hp, id]
    rw [without, withoutMembers_eq_map, hall, hsame]

theorem get?_without (gone : List String → Bool) (v : Json) (key : String) :
    (v.without gone).get? key =
      if gone [key] then none else (v.get? key).map (without fun path => gone (key :: path)) := by
  cases v with
  | obj ms => exact get?_withoutMembers gone ms key
  | null | bool | num | str | arr => simp [without, get?]

/-! ### One place -/

/-- The places below a key, of those that are one given place under that key. -/
theorem beq_cons_self (key : String) (place : List String) :
    (fun path => key :: path == key :: place) = (· == place) := by
  funext path
  simp

/-- Below another key there is none. -/
theorem beq_cons_of_ne {key key' : String} (h : key ≠ key') (place : List String) :
    (fun path => key :: path == key' :: place) = fun _ => false := by
  funext path
  simp [h]

/-- A lookup at the place left out finds nothing. -/
theorem at?_without_self {place : List String} (hplace : place ≠ []) (v : Json) :
    (v.without (· == place)).at? place = none := by
  induction place generalizing v with
  | nil => exact absurd rfl hplace
  | cons key place ih =>
    rw [at?, get?_without, beq_cons_self]
    cases place with
    | nil => rw [if_pos (by simp), Option.bind_none]
    | cons next place =>
      rw [if_neg (by simp), Option.bind_map, Option.bind_eq_none_iff]
      exact fun w _ => ih (List.cons_ne_nil _ _) w

/-- A lookup at a place apart from the one left out finds what it found before. -/
theorem at?_without {place path : List String} (hplace : ¬ place <+: path)
    (hpath : ¬ path <+: place) (v : Json) : (v.without (· == place)).at? path = v.at? path := by
  induction path generalizing place v with
  | nil => exact absurd List.nil_prefix hpath
  | cons key path ih =>
    cases place with
    | nil => exact absurd List.nil_prefix hplace
    | cons key' place =>
      rw [at?, at?, get?_without]
      by_cases hkey : key = key'
      · subst hkey
        rw [List.cons_prefix_cons] at hplace hpath
        have hplace' : ¬ place <+: path := fun h => hplace ⟨rfl, h⟩
        have hpath' : ¬ path <+: place := fun h => hpath ⟨rfl, h⟩
        have hmore : place ≠ [] := fun h => hplace' (h ▸ List.nil_prefix)
        rw [if_neg (by simpa using hmore.symm), beq_cons_self, Option.bind_map]
        exact congrArg _ (funext fun w => ih hplace' hpath' w)
      · rw [if_neg (by simp [hkey]), beq_cons_of_ne hkey, Option.bind_map]
        exact congrArg _ (funext fun w => by rw [Function.comp_apply, without_never])

/-! ### Keys and strings -/

/-- Leaving members out brings no key or string in. -/
theorem texts_without_subset (gone : List String → Bool) (v : Json) :
    (v.without gone).texts ⊆ v.texts := by
  induction v using Json.induct generalizing gone with
  | null | bool | num | str | arr => exact fun _ h => h
  | obj ms ih =>
    intro t ht
    rw [without, texts, mem_textsOfMembers, withoutMembers_eq_map] at ht
    obtain ⟨_, hp, ht⟩ := ht
    obtain ⟨q, hq, rfl⟩ := List.mem_map.mp hp
    have hq : q ∈ ms := (List.mem_filter.mp hq).1
    rw [texts, mem_textsOfMembers]
    exact ⟨q, hq, ht.imp_right fun h => ih q hq _ h⟩

/-- A member that is not the one left out stays, with what is left of its value. -/
theorem mem_texts_without_of_mem {ms : Members} {key : String} {place : List String}
    {p : String × Json} (hp : p ∈ ms) (hkept : ¬ (p.1 = key ∧ place = [])) {t : String}
    (ht : t = p.1 ∨ t ∈ (p.2.without fun path => p.1 :: path == key :: place).texts) :
    t ∈ ((obj ms).without (· == key :: place)).texts := by
  rw [without, texts, mem_textsOfMembers, withoutMembers_eq_map]
  refine ⟨_, List.mem_map_of_mem (List.mem_filter.mpr ⟨hp, ?_⟩), ht⟩
  simp only [Bool.not_eq_true', beq_eq_false_iff_ne, ne_eq, List.cons.injEq]
  exact fun h => hkept ⟨h.1, h.2.symm⟩

/-- With unique keys, a key or string that is gone was the last key of the place or stood under
    it. -/
theorem mem_texts_without {v : Json} (hv : v.UniqueKeys) {place : List String} {t : String}
    (ht : t ∈ v.texts) : t ∈ (v.without (· == place)).texts ∨ place.getLast? = some t ∨
      ∃ w, v.at? place = some w ∧ t ∈ w.texts := by
  induction place generalizing v with
  | nil => exact .inr (.inr ⟨v, rfl, ht⟩)
  | cons key place ih =>
    cases v with
    | null | bool | num | str | arr => exact .inl ht
    | obj ms =>
      rw [UniqueKeys] at hv
      rw [texts, mem_textsOfMembers] at ht
      obtain ⟨⟨k, u⟩, hp, ht⟩ := ht
      have hat : ∀ place, (obj ms).at? (k :: place) = u.at? place := by
        intro place
        rw [at?, get?, (Members.get?_eq_some_iff hv.1).mpr hp, Option.bind_some]
      by_cases hgone : k = key ∧ place = []
      · -- the member is the one that is left out
        obtain ⟨rfl, rfl⟩ := hgone
        rcases ht with rfl | ht
        · exact .inr (.inl rfl)
        · exact .inr (.inr ⟨u, hat [], ht⟩)
      · have hstays := fun s => @mem_texts_without_of_mem ms key place (k, u) hp hgone s
        rcases ht with rfl | ht
        · exact .inl (hstays _ (.inl rfl))
        · by_cases hkey : k = key
          · subst hkey
            have hmore : place ≠ [] := fun h => hgone ⟨rfl, h⟩
            rcases ih (uniqueKeysMembers_iff.mp hv.2 _ hp) ht with h | h | ⟨w, hw, h⟩
            · exact .inl (hstays _ (.inr (by rwa [beq_cons_self])))
            · refine .inr (.inl ?_)
              rw [List.getLast?_cons, h]
              rfl
            · exact .inr (.inr ⟨w, (hat place).trans hw, h⟩)
          · exact .inl (hstays _ (.inr (by rwa [beq_cons_of_ne hkey, without_never])))

/-- The last key of a place where something stands is a key of the value. -/
theorem mem_texts_of_at? {v w : Json} {place : List String} {key : String}
    (h : v.at? place = some w) (hkey : place.getLast? = some key) : key ∈ v.texts := by
  induction place generalizing v with
  | nil => cases hkey
  | cons first place ih =>
    obtain ⟨u, hget, hrest⟩ := Option.bind_eq_some_iff.mp h
    obtain ⟨ms, rfl, hms⟩ := eq_obj_of_get? hget
    rw [texts, mem_textsOfMembers]
    refine ⟨(first, u), Members.mem_of_get? hms, ?_⟩
    cases place with
    | nil =>
      cases hkey
      exact .inl rfl
    | cons second place => exact .inr (ih hrest hkey)

end Json

end SecurityScan
