import SecurityScan.Proofs.Excerpt
import SecurityScan.Review.Answer
import SecurityScan.Service.Submission

namespace SecurityScan

open Json (Shape)

/-!
# Shapes that suit records

Reading less than the whole of a text changes nothing if what is left out does not matter.

* `Json.Shape.Suits` — a type is read from a value as from what the shape keeps of it;
* `Json.Shape.Suits.decode?_excerpt?` — so a text that has a value is read as that value;
* `Json.Shape.suits_whole`, `Suits.items`, `Suits.option` and `Suits.record` — shapes that suit, put
  together;
* `Review.suits_answer`, `Service.suits_codeSubmission` and `Service.suits_specificationSubmission` —
  the shapes by which answers and the bodies of requests are read suit them;
* `Service.toOption_submitted` — so the body of a request is what its value is read as.
-/

namespace Json.Shape

/-- What the shape leaves out of a value does not matter to the reader of the type. -/
def Suits (s : Shape) (α : Type) [Wire α] : Prop :=
  ∀ v, Wire.decode? (s.keep v) = (Wire.decode? v : Option α)

/-- **A text that has a value is read as that value.** -/
theorem Suits.decode?_excerpt? {α : Type} [Wire α] {s : Shape} (hs : s.Suits α) {text : String}
    {v : Json} (h : parse? text = some v) :
    (excerpt? s text).bind Wire.decode? = (Wire.decode? v : Option α) := by
  rw [excerpt?_of_parse? h s, Option.bind_some]
  exact hs v

/-! ### Parts -/

mutual

theorem keep_whole : ∀ v, whole.keep v = v
  | .null | .bool _ | .num _ | .str _ => rfl
  | .arr vs => by rw [keep, keepItems_whole]
  | .obj ms => by rw [keep, keepMembers_whole]

theorem keepItems_whole : ∀ (i : Nat) (vs : List Json), whole.keepItems i vs = vs
  | _, [] => rfl
  | i, v :: vs => by
    rw [keepItems, keepItems_whole]
    exact congrArg (· :: vs) (keep_whole v)

theorem keepMembers_whole : ∀ ms : List (String × Json), whole.keepMembers ms = ms
  | [] => rfl
  | (k, v) :: ms => by
    rw [keepMembers, keepMembers_whole]
    exact congrArg (fun w => (k, w) :: ms) (keep_whole v)

end

variable {α : Type} [Wire α] {s : Shape}

theorem suits_whole : whole.Suits α := fun v => by rw [keep_whole]

theorem Suits.items (hs : s.Suits α) : (items s).Suits (List α) := by
  intro v
  cases v with
  | arr vs =>
    have hitems (i : Nat) : Wire.decodeItems? ((Shape.items s).keepItems i vs) =
        (Wire.decodeItems? vs : Option (List α)) := by
      induction vs generalizing i with
      | nil => rfl
      | cons v vs ih =>
        have hv : Wire.decode? (((Shape.items s).item i).keep v) = (Wire.decode? v : Option α) :=
          hs v
        rw [keepItems, Wire.decodeItems?, Wire.decodeItems?, hv, ih]
    exact hitems 0
  | null | bool | num | str | obj => rfl

/-- An optional value may be null besides, which is always kept. -/
theorem Suits.option (hs : s.Suits α) : s.Suits (Option α) := by
  intro v
  cases v with
  | null => rfl
  | arr vs => exact congrArg (Option.map some) (hs (.arr vs))
  | obj ms => exact congrArg (Option.map some) (hs (.obj ms))
  | bool | num | str => rfl

/-! ### Records -/

variable {fields : List (String × Shape)}

theorem asks_record (fields : List (String × Shape)) (k : String) :
    (record fields).asks k = (fields.map (·.1)).contains k := by
  rw [asks, List.contains_eq_any_beq, List.any_map]
  exact congrArg fields.any (funext fun p => BEq.comm)

/-- The slots as far as they are asked for. -/
def keepSlots (s : Shape) (slots : Slots) : Slots :=
  ⟨slots.values.map fun p => (p.1, (s.member p.1).keep p.2), slots.positional⟩

theorem get?_keepSlots (slots : Slots) (name : String) :
    (s.keepSlots slots).values.get? name =
      (slots.values.get? name).map (s.member name).keep := by
  obtain ⟨values, positional⟩ := slots
  show Members.get? (values.map fun p => (p.1, (s.member p.1).keep p.2)) name = _
  induction values with
  | nil => rfl
  | cons p values ih =>
    obtain ⟨k, v⟩ := p
    rw [List.map_cons, Members.get?, Members.get?, ih]
    split
    · next h => rw [h]; rfl
    · rfl

theorem required_keepSlots {name : String} (h : (s.member name).Suits α) (slots : Slots) :
    (s.keepSlots slots).required name = (slots.required name : Option α) := by
  rw [Slots.required, Slots.required, get?_keepSlots]
  cases slots.values.get? name with
  | none => rfl
  | some v => exact h v

theorem optional_keepSlots {name : String} (h : (s.member name).Suits (Option α))
    (slots : Slots) :
    (s.keepSlots slots).optional name = (slots.optional name : Option (Option α)) := by
  rw [Slots.optional, Slots.optional, get?_keepSlots]
  cases slots.values.get? name with
  | none => rfl
  | some v => exact h v

theorem withDefault_keepSlots {name : String} (h : (s.member name).Suits α) (slots : Slots)
    (default : α) :
    (s.keepSlots slots).withDefault name default = slots.withDefault name default := by
  rw [Slots.withDefault, Slots.withDefault, get?_keepSlots]
  cases slots.values.get? name with
  | none => rfl
  | some v => exact h v

/-- The members of an object that are fields are kept as fields. -/
theorem filter_keepMembers (ms : List (String × Json)) :
    ((record fields).keepMembers ms).filter (fun p => (fields.map (·.1)).contains p.1) =
      (ms.filter fun p => (fields.map (·.1)).contains p.1).map
        fun p => (p.1, ((record fields).member p.1).keep p.2) := by
  induction ms with
  | nil => rfl
  | cons p ms ih =>
    obtain ⟨k, v⟩ := p
    rw [keepMembers, asks_record, List.filter_cons, List.filter_cons, ih]
    split
    · rw [List.map_cons]
    · rfl

theorem length_keepItems (i : Nat) (vs : List Json) : (s.keepItems i vs).length = vs.length := by
  induction vs generalizing i with
  | nil => rfl
  | cons v vs ih => rw [keepItems, List.length_cons, List.length_cons, ih]

/-- What is asked of an item is what is asked of the field in its place. -/
theorem item_eq_member (hnodup : (fields.map (·.1)).Nodup) {i : Nat} {p : String × Shape}
    (h : fields[i]? = some p) : (record fields).item i = (record fields).member p.1 := by
  induction fields generalizing i with
  | nil => cases h
  | cons f fields ih =>
    obtain ⟨hnot, hnodup⟩ := List.nodup_cons.mp hnodup
    cases i with
    | zero =>
      cases h
      have hlookup : List.lookup p.1 (p :: fields) = some p.2 := List.lookup_cons_self
      rw [item, member, hlookup]
      rfl
    | succ i =>
      have hmem : p ∈ fields := List.mem_of_getElem? h
      have hne : (p.1 == f.1) = false := by
        rw [beq_eq_false_iff_ne]
        exact fun heq => hnot (List.mem_map.mpr ⟨p, hmem, heq⟩)
      have hmember : (record (f :: fields)).member p.1 = (record fields).member p.1 := by
        rw [member, member, List.lookup_cons, hne]
      rw [hmember, ← ih hnodup h]
      rfl

/-- The items of an array are kept as the fields in their places. -/
theorem zip_keepItems (hnodup : (fields.map (·.1)).Nodup) (vs : List Json) :
    (fields.map (·.1)).zip ((record fields).keepItems 0 vs) =
      ((fields.map (·.1)).zip vs).map
        fun p => (p.1, ((record fields).member p.1).keep p.2) := by
  -- on the items, with the fields that come before left out
  have hdrop (i : Nat) : ((fields.drop i).map (·.1)).zip ((record fields).keepItems i vs) =
      (((fields.drop i).map (·.1)).zip vs).map
        fun p => (p.1, ((record fields).member p.1).keep p.2) := by
    induction vs generalizing i with
    | nil => simp [keepItems]
    | cons v vs ih =>
      cases hi : fields[i]? with
      | none =>
        have hnil : fields.drop i = [] := List.drop_eq_nil_iff.mpr (List.getElem?_eq_none_iff.mp hi)
        rw [hnil]
        rfl
      | some p =>
        have hcons : fields.drop i = p :: fields.drop (i + 1) := by
          obtain ⟨hlt, rfl⟩ := List.getElem?_eq_some_iff.mp hi
          exact List.drop_eq_getElem_cons hlt
        rw [hcons, keepItems, List.map_cons, List.zip_cons_cons, List.zip_cons_cons, List.map_cons,
          ih, item_eq_member hnodup hi]
  exact hdrop 0

/-- What a record keeps of a value gives the same fields, as far as they are asked for. -/
theorem slots?_keep (hnodup : (fields.map (·.1)).Nodup) (v : Json) :
    ((record fields).keep v).slots? (fields.map (·.1)) =
      (v.slots? (fields.map (·.1))).map (record fields).keepSlots := by
  cases v with
  | obj ms =>
    have hkeys (known : Members) : (known.map fun p =>
        (p.1, ((record fields).member p.1).keep p.2)).map (·.1) = known.map (·.1) := List.map_map
    rw [keep, slots?, slots?, filter_keepMembers, hkeys]
    split <;> rfl
  | arr vs =>
    rw [keep, slots?, slots?, length_keepItems, zip_keepItems hnodup]
    split <;> rfl
  | null | bool | num | str => rfl

/-- A record suits a type that is read from its fields, if what it keeps of them does not matter. -/
theorem Suits.record {read : Slots → Option α} (hs : s = .record fields)
    (hnodup : (fields.map (·.1)).Nodup)
    (hdecode : ∀ v, Wire.decode? v = (Json.slots? (fields.map (·.1)) v).bind read)
    (hread : ∀ slots, read (s.keepSlots slots) = read slots) : s.Suits α := by
  subst hs
  intro v
  rw [hdecode, hdecode, slots?_keep hnodup, Option.bind_map]
  exact congrArg _ (funext hread)

/-- The fields of a flat record are asked for as a whole. -/
theorem suits_member_flat (names : List String) (k : String) : ((flat names).member k).Suits α := by
  have hwhole : (flat names).member k = whole := by
    rw [flat, member]
    induction names with
    | nil => rfl
    | cons name names ih =>
      rw [List.map_cons, List.lookup_cons]
      split
      · rfl
      · exact ih
  rw [hwhole]
  exact suits_whole

end Json.Shape

/-! ### Answers -/

namespace Review

open Json.Shape

theorem suits_message : ChoiceMessage.shape.Suits ChoiceMessage := by
  have hrole : (ChoiceMessage.shape.member "role").Suits String := suits_member_flat _ _
  have hcontent : (ChoiceMessage.shape.member "content").Suits (Option String) :=
    suits_member_flat _ _
  refine .record rfl (by decide) (fun v => rfl) fun slots => ?_
  rw [required_keepSlots hrole, optional_keepSlots hcontent]

theorem suits_choice : Choice.shape.Suits Choice := by
  have hmessage : (Choice.shape.member "message").Suits (Option ChoiceMessage) :=
    suits_message.option
  have hreason : (Choice.shape.member "finish_reason").Suits (Option String) := suits_whole
  refine .record rfl (by decide) (fun v => rfl) fun slots => ?_
  rw [optional_keepSlots hmessage, optional_keepSlots hreason]

theorem suits_usage : Usage.shape.Suits Usage := by
  have hcount (name : String) : (Usage.shape.member name).Suits UInt32 := suits_member_flat _ _
  refine .record rfl (by decide) (fun v => rfl) fun slots => ?_
  rw [required_keepSlots (hcount _), required_keepSlots (hcount _), required_keepSlots (hcount _)]

/-- **Answers** are read from what is asked of them. -/
theorem suits_answer : Answer.shape.Suits Answer := by
  have hid : (Answer.shape.member "id").Suits (Option String) := suits_whole
  have hmodel : (Answer.shape.member "model").Suits (Option String) := suits_whole
  have hchoices : (Answer.shape.member "choices").Suits (List Choice) := suits_choice.items
  have husage : (Answer.shape.member "usage").Suits (Option Usage) := suits_usage.option
  refine .record rfl (by decide) (fun v => rfl) fun slots => ?_
  rw [optional_keepSlots hid, optional_keepSlots hmodel, withDefault_keepSlots hchoices,
    optional_keepSlots husage]

end Review

/-! ### Bodies of requests -/

namespace Service

open Json.Shape

theorem suits_codeSubmission : CodeSubmission.form.shape.Suits CodeSubmission := by
  have hcode : (CodeSubmission.form.shape.member "code").Suits String := suits_member_flat _ _
  have hlanguage : (CodeSubmission.form.shape.member "language").Suits String :=
    suits_member_flat _ _
  refine .record rfl (by decide) (fun v => rfl) fun slots => ?_
  rw [required_keepSlots hcode, withDefault_keepSlots hlanguage]

theorem suits_specificationSubmission :
    SpecificationSubmission.form.shape.Suits SpecificationSubmission := by
  have hcontent : (SpecificationSubmission.form.shape.member "content").Suits String :=
    suits_member_flat _ _
  refine .record rfl (by decide) (fun v => rfl) fun slots => ?_
  rw [required_keepSlots hcontent]

/-- **A body that has a value** holds the record that the value is read as, and is at fault if it is
    read as none. -/
theorem toOption_submitted {α : Type} [Wire α] {f : Form} (hf : f.shape.Suits α) {text : String}
    {v : Json} (h : Json.parse? text = some v) :
    (submitted f text : Except Fault α).toOption = Wire.decode? v := by
  rw [submitted, hf.decode?_excerpt? h]
  cases (Wire.decode? v : Option α) <;> rfl

end Service

end SecurityScan
