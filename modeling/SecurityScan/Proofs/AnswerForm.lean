import Mathlib.Data.List.Nodup
import SecurityScan.Proofs.UniqueKeys
import SecurityScan.Review.Answer

namespace SecurityScan

/-!
# The form of an answer

Which JSON values are read as answers, said field by field and without the reader.

* `Json.IsRecord` and `Json.field?` — a value gives the fields of a record, by name or by position;
* `Json.Gives`, `Json.MayGive` and `Json.MayList` — what is given in a field that must be there, in
  one that may be left out, and in one that lists;
* `Wire.Reads` — a relation says which values are read as what;
* `Review.IsMessage`, `Review.IsChoice`, `Review.IsUsage` and `Review.IsAnswer` — the form of an
  answer and of its parts;
* `Review.reads_answer` — what has the form of an answer is read as that answer, and nothing else
  is.
-/

namespace Json

/-! ### Records -/

/-- The value gives the fields of a record: it is an object in which none of them comes twice, or an
    array with no more items than there are fields. -/
inductive IsRecord (names : List String) : Json → Prop where
  | obj {ms : Members} : (∀ name ∈ names, ms.keys.count name ≤ 1) → IsRecord names (.obj ms)
  | arr {vs : List Json} : vs.length ≤ names.length → IsRecord names (.arr vs)

/-- What a value gives in a field: the member of that name in an object, and the item at the place
    of the name in an array. -/
def field? (names : List String) (name : String) : Json → Option Json
  | .obj ms => Members.get? ms name
  | .arr vs => vs[names.idxOf name]?
  | _ => none

section

variable {names : List String} {v : Json}

theorem isRecord_iff : v.IsRecord names ↔ ∃ s, v.slots? names = some s := by
  cases v with
  | obj ms =>
    have hknown : ((ms.filter fun p => names.contains p.1).map (·.1)) =
        (Members.keys ms).filter names.contains := by
      rw [Members.keys, List.filter_map]
      rfl
    -- the reader checks the keys that are fields, the form counts each field among all keys
    have hunique : ((Members.keys ms).filter names.contains).Nodup ↔
        ∀ name ∈ names, (Members.keys ms).count name ≤ 1 := by
      rw [List.nodup_iff_count_le_one]
      refine forall_congr' fun name => ?_
      by_cases hname : name ∈ names
      · rw [List.count_filter (List.contains_iff_mem.mpr hname)]
        exact ⟨fun h _ => h, fun h => h hname⟩
      · have hgone : name ∉ (Members.keys ms).filter names.contains := fun h =>
          hname (List.contains_iff_mem.mp (List.mem_filter.mp h).2)
        simp [List.count_eq_zero.mpr hgone, hname]
    rw [slots?, hknown]
    constructor
    · intro h
      cases h with
      | obj h => exact ⟨_, if_pos (hunique.mpr h)⟩
    · rintro ⟨s, hs⟩
      refine .obj (hunique.mp ?_)
      by_contra hnot
      rw [if_neg hnot] at hs
      cases hs
  | arr vs =>
    rw [slots?]
    constructor
    · intro h
      cases h with
      | arr h => exact ⟨_, if_pos h⟩
    · rintro ⟨s, hs⟩
      refine .arr ?_
      by_contra hnot
      rw [if_neg hnot] at hs
      cases hs
  | null | bool | num | str =>
    refine iff_of_false ?_ ?_
    · rintro ⟨⟩
    · rintro ⟨s, hs⟩
      cases hs

/-- The members of an object that are no fields do not matter for a field. -/
theorem get?_filter_contains (ms : Members) {name : String} (hname : name ∈ names) :
    Members.get? (ms.filter fun p => names.contains p.1) name = Members.get? ms name := by
  induction ms with
  | nil => rfl
  | cons p ms ih =>
    obtain ⟨k, w⟩ := p
    by_cases hk : k = name
    · subst hk
      simp [Members.get?, hname]
    · by_cases hknown : names.contains k = true
      · rw [List.filter_cons_of_pos (by exact hknown), Members.get?, Members.get?, ih]
      · rw [List.filter_cons_of_neg (by exact hknown), Members.get?, if_neg hk, ih]

/-- The field at the place of its name. -/
theorem get?_zip (names : List String) (vs : List Json) (name : String) :
    Members.get? (names.zip vs) name = if name ∈ names then vs[names.idxOf name]? else none := by
  induction names generalizing vs with
  | nil => rfl
  | cons k names ih =>
    cases vs with
    | nil => simp [Members.get?]
    | cons w vs =>
      by_cases hk : k = name
      · simp [Members.get?, hk]
      · simp [Members.get?, hk, ih, Ne.symm hk, List.idxOf_cons_ne]

/-- The slots of a value hold what it gives in its fields; only an array gives them by position. -/
theorem of_slots? {s : Slots} (h : v.slots? names = some s) :
    (∀ name ∈ names, s.values.get? name = v.field? names name) ∧ s.positional = !v.isObj := by
  cases v with
  | obj ms =>
    obtain ⟨_, hs⟩ := Option.ite_none_right_eq_some.mp h
    cases hs
    exact ⟨fun name hname => get?_filter_contains ms hname, rfl⟩
  | arr vs =>
    obtain ⟨_, hs⟩ := Option.ite_none_right_eq_some.mp h
    cases hs
    exact ⟨fun name hname => (get?_zip names vs name).trans (if_pos hname), rfl⟩
  | null | bool | num | str => cases h

end

/-! ### Fields -/

section

variable {α : Type} (R : Json → α → Prop) (names : List String) (name : String) (v : Json)

/-- The value gives `a` in a field that must be there. -/
def Gives (a : α) : Prop := ∃ w, v.field? names name = some w ∧ R w a

/-- The value gives `a` in a field that may be null, or left out of an object. -/
def MayGive : Option α → Prop
  | none => v.field? names name = some .null ∨ v.isObj = true ∧ v.field? names name = none
  | some a => v.Gives R names name a

/-- The value gives the items `as` in a field that lists; there are none if it is left out. -/
def MayList (as : List α) : Prop :=
  (v.field? names name = none ∧ as = []) ∨
    ∃ vs, v.field? names name = some (.arr vs) ∧ List.Forall₂ R vs as

end

end Json

namespace Wire

open Json

/-- The relation says which values are read as what; null is read as nothing. -/
structure Reads {α : Type} [Wire α] (R : Json → α → Prop) : Prop where
  decode?_eq_some_iff : ∀ {v : Json} {a : α}, decode? v = some a ↔ R v a
  not_null : ∀ {a : α}, ¬ R .null a

/-- Null is nothing, and any other value what it is read as. -/
theorem decode?_eq_some_none_iff {α : Type} [Wire α] {w : Json} :
    decode? (α := Option α) w = some none ↔ w = .null := by
  cases w <;> simp [decode?]

section

variable {α : Type} [Wire α] {R : Json → α → Prop} (hR : Reads R) {names : List String}
  {name : String} {v : Json} {s : Slots} (hs : v.slots? names = some s) (hname : name ∈ names)

include hR

theorem decodeItems?_eq_some_iff {vs : List Json} {as : List α} :
    decodeItems? vs = some as ↔ List.Forall₂ R vs as := by
  induction vs generalizing as with
  | nil => simp [decodeItems?, eq_comm]
  | cons v vs ih =>
    rw [List.forall₂_cons_left_iff]
    simp only [decodeItems?, Option.bind_eq_bind, Option.bind_eq_some_iff, hR.decode?_eq_some_iff,
      ih, Option.pure_def, Option.some.injEq]
    constructor
    · rintro ⟨a, ha, as, has, rfl⟩
      exact ⟨a, as, ha, has, rfl⟩
    · rintro ⟨a, as, ha, has, rfl⟩
      exact ⟨a, ha, as, has, rfl⟩

theorem decode?_eq_some_some_iff {w : Json} {a : α} :
    decode? (α := Option α) w = some (some a) ↔ R w a := by
  cases w with
  | null => exact iff_of_false nofun hR.not_null
  | bool | num | str | arr | obj => simp [decode?, ← hR.decode?_eq_some_iff]

include hs hname

theorem required_eq_some_iff {a : α} :
    s.required name = some a ↔ v.Gives R names name a := by
  rw [Slots.required, (of_slots? hs).1 name hname, Option.bind_eq_some_iff]
  exact exists_congr fun w => and_congr_right fun _ => hR.decode?_eq_some_iff

theorem optional_eq_some_iff {o : Option α} :
    s.optional name = some o ↔ v.MayGive R names name o := by
  obtain ⟨hvalues, hpositional⟩ := of_slots? hs
  rw [Slots.optional, hvalues name hname, hpositional]
  cases o with
  | none =>
    rw [MayGive]
    cases v.field? names name with
    | none => cases v.isObj <;> simp
    | some w => simp [decode?_eq_some_none_iff]
  | some a =>
    rw [MayGive, Gives]
    cases v.field? names name with
    | none => cases v.isObj <;> simp
    | some w => simp [decode?_eq_some_some_iff hR]

theorem withDefault_eq_some_iff {as : List α} :
    s.withDefault name [] = some as ↔ v.MayList R names name as := by
  rw [Slots.withDefault, (of_slots? hs).1 name hname, MayList]
  cases v.field? names name with
  | none => simp [eq_comm]
  | some w =>
    cases w with
    | arr vs => simp [decode?, decodeItems?_eq_some_iff hR]
    | null | bool | num | str | obj => simp [decode?]

end

/-- What is made of the slots of a value is made of a record. -/
theorem bind_slots?_eq_some_iff {α : Type} {names : List String} {v : Json} {f : Slots → Option α}
    {a : α} {P : Prop} (h : ∀ s, v.slots? names = some s → (f s = some a ↔ P)) :
    (v.slots? names).bind f = some a ↔ v.IsRecord names ∧ P := by
  rw [isRecord_iff, Option.bind_eq_some_iff]
  constructor
  · rintro ⟨s, hs, ha⟩
    exact ⟨⟨s, hs⟩, (h s hs).mp ha⟩
  · rintro ⟨⟨s, hs⟩, hP⟩
    exact ⟨s, hs, (h s hs).mpr hP⟩

end Wire

namespace Review

open Wire

/-! ### Texts and counts -/

/-- The value is a text. -/
def IsText (v : Json) (s : String) : Prop := v = .str s

theorem reads_text : Reads IsText where
  decode?_eq_some_iff := by
    intro v s
    cases v <;> simp [decode?, IsText]
  not_null := nofun

/-- The value is a number below `2 ^ 32`, written as an integer. -/
def IsCount (v : Json) (n : UInt32) : Prop := v = .num (.int n.toNat)

theorem reads_count : Reads IsCount where
  decode?_eq_some_iff := by
    intro v n
    show (natBelow? UInt32.size v).map UInt32.ofNat = some n ↔ v = .num (.int n.toNat)
    constructor
    · intro h
      obtain ⟨k, hk, rfl⟩ := Option.map_eq_some_iff.mp h
      unfold natBelow? at hk
      split at hk
      · next i =>
        split at hk
        · next hi =>
          cases hk
          have hlt : i.toNat < UInt32.size := by omega
          rw [UInt32.toNat_ofNat_of_lt' hlt, Int.toNat_of_nonneg hi.1]
        · cases hk
      · cases hk
    · rintro rfl
      have hlt : (n.toNat : Int) < UInt32.size := Int.ofNat_lt.mpr n.toNat_lt
      rw [natBelow?, if_pos ⟨Int.natCast_nonneg _, hlt⟩, Option.map_some, Int.toNat_natCast,
        UInt32.ofNat_toNat]
  not_null := nofun

/-! ### Answers -/

/-- The fields of the message of a choice. -/
def messageFields : List String := ["role", "content"]

/-- The value has the form of the message of a choice. -/
def IsMessage (v : Json) (m : ChoiceMessage) : Prop :=
  v.IsRecord messageFields ∧
    v.Gives IsText messageFields "role" m.role ∧ v.MayGive IsText messageFields "content" m.content

theorem reads_message : Reads IsMessage where
  decode?_eq_some_iff := by
    intro v m
    refine bind_slots?_eq_some_iff fun s hs => ?_
    have hrole := @required_eq_some_iff _ _ _ reads_text _ "role" _ _ hs (by simp)
    have hcontent := @optional_eq_some_iff _ _ _ reads_text _ "content" _ _ hs (by simp)
    simp only [Option.bind_eq_bind, Option.bind_eq_some_iff, hrole, hcontent, Option.pure_def,
      Option.some.injEq]
    constructor
    · rintro ⟨_, h₁, _, h₂, rfl⟩
      exact ⟨h₁, h₂⟩
    · rintro ⟨h₁, h₂⟩
      exact ⟨_, h₁, _, h₂, rfl⟩
  not_null := by
    rintro m ⟨⟨⟩, _⟩

/-- The fields of a choice. -/
def choiceFields : List String := ["message", "finish_reason"]

/-- The value has the form of a choice. -/
def IsChoice (v : Json) (c : Choice) : Prop :=
  v.IsRecord choiceFields ∧
    v.MayGive IsMessage choiceFields "message" c.message ∧
    v.MayGive IsText choiceFields "finish_reason" c.finishReason

theorem reads_choice : Reads IsChoice where
  decode?_eq_some_iff := by
    intro v c
    refine bind_slots?_eq_some_iff fun s hs => ?_
    have hmessage := @optional_eq_some_iff _ _ _ reads_message _ "message" _ _ hs (by simp)
    have hreason := @optional_eq_some_iff _ _ _ reads_text _ "finish_reason" _ _ hs (by simp)
    simp only [Option.bind_eq_bind, Option.bind_eq_some_iff, hmessage, hreason, Option.pure_def,
      Option.some.injEq]
    constructor
    · rintro ⟨_, h₁, _, h₂, rfl⟩
      exact ⟨h₁, h₂⟩
    · rintro ⟨h₁, h₂⟩
      exact ⟨_, h₁, _, h₂, rfl⟩
  not_null := by
    rintro c ⟨⟨⟩, _⟩

/-- The fields of what an answer has cost. -/
def usageFields : List String := ["prompt_tokens", "completion_tokens", "total_tokens"]

/-- The value has the form of what an answer has cost. -/
def IsUsage (v : Json) (u : Usage) : Prop :=
  v.IsRecord usageFields ∧
    v.Gives IsCount usageFields "prompt_tokens" u.promptTokens ∧
    v.Gives IsCount usageFields "completion_tokens" u.completionTokens ∧
    v.Gives IsCount usageFields "total_tokens" u.totalTokens

theorem reads_usage : Reads IsUsage where
  decode?_eq_some_iff := by
    intro v u
    refine bind_slots?_eq_some_iff fun s hs => ?_
    have hprompt := @required_eq_some_iff _ _ _ reads_count _ "prompt_tokens" _ _ hs (by simp)
    have hown := @required_eq_some_iff _ _ _ reads_count _ "completion_tokens" _ _ hs (by simp)
    have htotal := @required_eq_some_iff _ _ _ reads_count _ "total_tokens" _ _ hs (by simp)
    simp only [Option.bind_eq_bind, Option.bind_eq_some_iff, hprompt, hown, htotal, Option.pure_def,
      Option.some.injEq]
    constructor
    · rintro ⟨_, h₁, _, h₂, _, h₃, rfl⟩
      exact ⟨h₁, h₂, h₃⟩
    · rintro ⟨h₁, h₂, h₃⟩
      exact ⟨_, h₁, _, h₂, _, h₃, rfl⟩
  not_null := by
    rintro u ⟨⟨⟩, _⟩

/-- The fields of an answer. -/
def answerFields : List String := ["id", "model", "choices", "usage"]

/-- The value has the form of an answer. -/
def IsAnswer (v : Json) (a : Answer) : Prop :=
  v.IsRecord answerFields ∧
    v.MayGive IsText answerFields "id" a.id ∧
    v.MayGive IsText answerFields "model" a.model ∧
    v.MayList IsChoice answerFields "choices" a.choices ∧
    v.MayGive IsUsage answerFields "usage" a.usage

/-- **Reading answers.** What has the form of an answer is read as that answer, and nothing else
    is. -/
theorem reads_answer : Reads IsAnswer where
  decode?_eq_some_iff := by
    intro v a
    refine bind_slots?_eq_some_iff fun s hs => ?_
    have hid := @optional_eq_some_iff _ _ _ reads_text _ "id" _ _ hs (by simp)
    have hmodel := @optional_eq_some_iff _ _ _ reads_text _ "model" _ _ hs (by simp)
    have hchoices := @withDefault_eq_some_iff _ _ _ reads_choice _ "choices" _ _ hs (by simp)
    have husage := @optional_eq_some_iff _ _ _ reads_usage _ "usage" _ _ hs (by simp)
    simp only [Option.bind_eq_bind, Option.bind_eq_some_iff, hid, hmodel, hchoices, husage,
      Option.pure_def, Option.some.injEq]
    constructor
    · rintro ⟨_, h₁, _, h₂, _, h₃, _, h₄, rfl⟩
      exact ⟨h₁, h₂, h₃, h₄⟩
    · rintro ⟨h₁, h₂, h₃, h₄⟩
      exact ⟨_, h₁, _, h₂, _, h₃, _, h₄, rfl⟩
  not_null := by
    rintro a ⟨⟨⟩, _⟩

end Review

end SecurityScan
