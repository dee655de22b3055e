import SecurityScan.Proofs.Nesting
import SecurityScan.Proofs.Rereading
import SecurityScan.Config.Basic
import SecurityScan.Source.Report
import SecurityScan.Review.Report
import SecurityScan.Review.Message

namespace SecurityScan

/-!
# Values read back from their JSON text

A value survives its text if it survives its JSON form and that form survives the text.

* `Json.Writable` — a JSON value whose text is read back: no numbers but integers, and not too deep;
* `Wire.text` and `Wire.ofText?` — the JSON text of a value, and the value that a text stands for;
* `LawfulWire` — every value of the type survives its JSON form, and `Wire.ofText?_text`: if that
  form is writable, it survives the text too;
* `Wire.slots?_obj` and the lemmas on `Slots.required`, `Slots.optional` and `Slots.withDefault` —
  what the fields of a record read in an object written by it;
* `Specification.decode?_report_failure` — what is written as a failure is never read as a report;
* `ScalarWire` and the lemmas of `Json.Writable` — how deep the form of each type is.
-/

/-! ### Texts that are read back -/

namespace Json

/-- The text of the value is read back: its numbers are integers that text can give, and it is `n`
    deep at most. -/
structure Writable (n : Nat) (v : Json) : Prop where
  integral : v.Integral
  depth : v.depth ≤ n

namespace Writable

variable {n : Nat}

theorem arr {vs : List Json} (h : ∀ v ∈ vs, v.Writable n) : (Json.arr vs).Writable (n + 1) where
  integral := integral_arr_iff.mpr fun v hv => (h v hv).integral
  depth := by
    have := depthItems_le_iff.mpr fun v hv => (h v hv).depth
    rw [Json.depth]
    omega

theorem obj {ms : Members} (h : ∀ p ∈ ms, p.2.Writable n) : (Json.obj ms).Writable (n + 1) where
  integral := integral_obj_iff.mpr fun p hp => (h p hp).integral
  depth := by
    have := depthMembers_le_iff.mpr fun p hp => (h p hp).depth
    rw [Json.depth]
    omega

/-- An object is not flat, and its members' values are less deep. -/
theorem exists_of_obj {ms : Members} (h : (Json.obj ms).Writable n) :
    ∃ m, n = m + 1 ∧ ∀ p ∈ ms, p.2.Writable m := by
  have hdepth : 1 + depthMembers ms ≤ n := h.depth
  have hms := depthMembers_le_iff.mp (show depthMembers ms ≤ n - 1 by omega)
  exact ⟨n - 1, by omega, fun p hp => ⟨integral_obj_iff.mp h.integral p hp, hms p hp⟩⟩

theorem null : Json.null.Writable n := ⟨by simp [Integral, numbers], Nat.zero_le n⟩

theorem bool (b : Bool) : (Json.bool b).Writable n := ⟨by simp [Integral, numbers], Nat.zero_le n⟩

theorem str (s : String) : (Json.str s).Writable n := ⟨by simp [Integral, numbers], Nat.zero_le n⟩

theorem nat {k : Nat} (hk : k < UInt64.size) : (Json.num (.int k)).Writable n where
  integral := by
    intro i hi
    rw [numbers, List.mem_singleton] at hi
    subst hi
    have hsize : UInt64.size = 18446744073709551616 := rfl
    exact ⟨rfl, Number.fits_int_iff.mpr ⟨by omega, by omega⟩⟩
  depth := Nat.zero_le n

end Writable

end Json

namespace Wire

open Json

section

variable {α : Type} [Wire α]

/-- The JSON text of a value. -/
def text (a : α) : String := (encode a).compact

/-- The value that a JSON text stands for. -/
def ofText? (s : String) : Option α := (parse? s).bind decode?

theorem ofText?_compact {v : Json} (h : v.Writable maxOpen) :
    ofText? (α := α) v.compact = decode? v := by
  rw [ofText?, parse?_compact h.integral h.depth]
  rfl

end

end Wire

/-! ### Lawful types -/

/-- Every value of the type survives its JSON form. -/
class LawfulWire (α : Type) [Wire α] : Prop where
  decode?_encode : ∀ a : α, Wire.decode? (encode a) = some a

attribute [simp] LawfulWire.decode?_encode

namespace Wire

open Json

/-- **Read back.** A value of a lawful type survives its text if its form is writable. -/
theorem ofText?_text {α : Type} [Wire α] [LawfulWire α] {a : α} (h : (encode a).Writable maxOpen) :
    ofText? (text a) = some a := by
  rw [text, ofText?_compact h, LawfulWire.decode?_encode]

theorem natBelow?_toNat {bound k : Nat} (hk : k < bound) :
    natBelow? bound (.num (.int k)) = some k := by
  simp [natBelow?, hk]

instance : LawfulWire Bool := ⟨fun _ => rfl⟩

instance : LawfulWire String := ⟨fun _ => rfl⟩

instance : LawfulWire Nat := ⟨fun n => by simp [encode, decode?]⟩

instance : LawfulWire UInt16 where
  decode?_encode w := by
    show (natBelow? UInt16.size (.num (.int w.toNat))).map UInt16.ofNat = some w
    rw [natBelow?_toNat w.toNat_lt, Option.map_some, UInt16.ofNat_toNat]

instance : LawfulWire UInt32 where
  decode?_encode w := by
    show (natBelow? UInt32.size (.num (.int w.toNat))).map UInt32.ofNat = some w
    rw [natBelow?_toNat w.toNat_lt, Option.map_some, UInt32.ofNat_toNat]

instance : LawfulWire UInt64 where
  decode?_encode w := by
    show (natBelow? UInt64.size (.num (.int w.toNat))).map UInt64.ofNat = some w
    rw [natBelow?_toNat w.toNat_lt, Option.map_some, UInt64.ofNat_toNat]

theorem decodeItems?_map {α : Type} [Wire α] [LawfulWire α] (as : List α) :
    decodeItems? (as.map encode) = some as := by
  induction as with
  | nil => rfl
  | cons a as ih => simp [decodeItems?, ih]

instance {α : Type} [Wire α] [LawfulWire α] : LawfulWire (List α) := ⟨decodeItems?_map⟩

instance : LawfulWire (Option String) where
  decode?_encode
    | none => rfl
    | some _ => rfl

/-! ### Words -/

instance : LawfulWire Severity := ⟨fun s => by cases s <;> rfl⟩

instance : LawfulWire Specification.Weakness := ⟨fun w => by cases w <;> rfl⟩

instance : LawfulWire Source.Weakness := ⟨fun w => by cases w <;> rfl⟩

instance : LawfulWire Source.Risk := ⟨fun r => by cases r <;> rfl⟩

instance : LawfulWire Review.Role := ⟨fun r => by cases r <;> rfl⟩

instance : LawfulWire Review.StopReason := ⟨fun r => by cases r <;> rfl⟩

instance : LawfulWire LogFormat := ⟨fun f => by cases f <;> rfl⟩

/-! ### Records -/

/-- The members of an object are the fields of a record with their names. -/
theorem slots?_obj {names : List String} {ms : Members} (hkeys : ms.keys.Sublist names)
    (hnames : names.Nodup) : (Json.obj ms).slots? names = some ⟨ms, false⟩ := by
  have hknown : ms.filter (fun p => names.contains p.1) = ms := by
    rw [List.filter_eq_self]
    intro p hp
    exact List.contains_iff_mem.mpr (hkeys.subset (List.mem_map_of_mem hp))
  rw [slots?, hknown]
  exact if_pos (hkeys.nodup hnames)

section

variable {α : Type} [Wire α] {ms : Members} {positional : Bool} {k name : String} {v : Json}

@[simp] theorem required_nil : Slots.required (α := α) ⟨[], positional⟩ name = none := rfl

@[simp] theorem required_self [LawfulWire α] (a : α) :
    Slots.required ⟨(name, encode a) :: ms, positional⟩ name = some a := by
  simp [Slots.required, Members.get?]

@[simp] theorem required_cons (h : k ≠ name) :
    Slots.required (α := α) ⟨(k, v) :: ms, positional⟩ name =
      Slots.required ⟨ms, positional⟩ name := by
  simp [Slots.required, Members.get?, h]

@[simp] theorem optional_nil : Slots.optional (α := α) ⟨[], false⟩ name = some none := rfl

@[simp] theorem optional_self [LawfulWire (Option α)] (o : Option α) :
    Slots.optional ⟨(name, encode o) :: ms, positional⟩ name = some o := by
  simp [Slots.optional, Members.get?]

@[simp] theorem optional_cons (h : k ≠ name) :
    Slots.optional (α := α) ⟨(k, v) :: ms, positional⟩ name =
      Slots.optional ⟨ms, positional⟩ name := by
  simp [Slots.optional, Members.get?, h]

@[simp] theorem withDefault_self [LawfulWire α] (a default : α) :
    Slots.withDefault ⟨(name, encode a) :: ms, positional⟩ name default = some a := by
  simp [Slots.withDefault, Members.get?]

@[simp] theorem withDefault_cons (h : k ≠ name) (default : α) :
    Slots.withDefault ⟨(k, v) :: ms, positional⟩ name default =
      Slots.withDefault ⟨ms, positional⟩ name default := by
  simp [Slots.withDefault, Members.get?, h]

end

instance : LawfulWire Specification.Finding where
  decode?_encode f := by
    have hslots : (encode f).slots?
        ["severity", "type", "description", "path", "recommendation"] = some ⟨_, false⟩ :=
      slots?_obj (.refl _) (by decide)
    dsimp only [decode?]
    simp [hslots]

instance : LawfulWire Specification.Report where
  decode?_encode r := by
    have hslots : (encode r).slots? ["valid", "overallRisk", "issues", "recommendations"] =
        some ⟨_, false⟩ :=
      slots?_obj (.refl _) (by decide)
    dsimp only [decode?]
    simp [hslots]

instance : LawfulWire Specification.Failure where
  decode?_encode f := by
    have hslots : (encode f).slots? ["valid", "error"] = some ⟨_, false⟩ :=
      slots?_obj (.refl _) (by decide)
    dsimp only [decode?]
    simp [hslots]

end Wire

open Wire

/-- **Untagged answers.** What is written as a failure is never read as a report: a report has more
    fields, and no text in the failure can stand in for them. -/
theorem Specification.decode?_report_failure (f : Specification.Failure) :
    (decode? (encode f) : Option Specification.Report) = none := by
  have hslots : (encode f).slots? ["valid", "overallRisk", "issues", "recommendations"] =
      some ⟨[("valid", .bool f.valid)], false⟩ := by
    show (Json.obj [("valid", .bool f.valid), ("error", .str f.error)]).slots? _ = _
    simp [Json.slots?]
  dsimp only [decode?]
  simp [hslots]

namespace Wire

instance : LawfulWire Specification.Outcome where
  decode?_encode
    | .report r => by
      show (match decode? (encode r) with
        | some r => some (Specification.Outcome.report r)
        | none => (decode? (encode r)).map .failure) = _
      rw [LawfulWire.decode?_encode r]
    | .failure f => by
      show (match decode? (encode f) with
        | some r => some (Specification.Outcome.report r)
        | none => (decode? (encode f)).map .failure) = _
      rw [Specification.decode?_report_failure f, LawfulWire.decode?_encode f]
      rfl

instance : LawfulWire Source.Finding where
  decode?_encode f := by
    have hslots : (encode f).slots?
        ["severity", "type", "line", "description", "recommendation"] =
        some ⟨_, false⟩ :=
      slots?_obj (.refl _) (by decide)
    dsimp only [decode?]
    simp [hslots]

instance : LawfulWire Source.Report where
  decode?_encode r := by
    have hslots : (encode r).slots?
        ["vulnerabilities", "suggestions", "overallRisk", "secureCodeExample"] =
        some ⟨_, false⟩ :=
      slots?_obj (.refl _) (by decide)
    dsimp only [decode?]
    simp [hslots]

instance : LawfulWire Review.Issue where
  decode?_encode i := by
    have hslots : (encode i).slots?
        ["severity", "type", "description", "line", "recommendation"] =
        some ⟨_, false⟩ :=
      slots?_obj (.refl _) (by decide)
    dsimp only [decode?]
    simp [hslots]

instance : LawfulWire Review.Report where
  decode?_encode r := by
    have hslots : (encode r).slots?
        ["valid", "overallRisk", "issues", "suggestions", "secureCodeExample"] =
        some ⟨_, false⟩ :=
      slots?_obj (.refl _) (by decide)
    dsimp only [decode?]
    simp [hslots]

instance : LawfulWire Review.Message where
  decode?_encode m := by
    have hslots : (encode m).slots? ["role", "content"] = some ⟨_, false⟩ :=
      slots?_obj (.refl _) (by decide)
    dsimp only [decode?]
    simp [hslots]

instance : LawfulWire Review.Request where
  decode?_encode r := by
    obtain ⟨messages, model⟩ := r
    cases model with
    | none =>
      have hslots : (encode (⟨messages, none⟩ : Review.Request)).slots? ["messages", "model"] =
          some ⟨[("messages", encode messages)], false⟩ :=
        slots?_obj (by simp [Members.keys]) (by decide)
      dsimp only [decode?]
      simp [hslots]
    | some model =>
      have hslots : (encode (⟨messages, some model⟩ : Review.Request)).slots?
          ["messages", "model"] =
          some ⟨[("messages", encode messages), ("model", encode (some model))], false⟩ :=
        slots?_obj (.refl _) (by decide)
      dsimp only [decode?]
      simp [hslots]

-- Here and for completions the kernel must not compare the two sides by evaluating words, so the
-- steps of the simplifier are recorded.
instance : LawfulWire Review.Usage where
  decode?_encode u := by
    have hslots : (encode u).slots? ["prompt_tokens", "completion_tokens", "total_tokens"] =
        some ⟨_, false⟩ :=
      slots?_obj (.refl _) (by decide)
    dsimp only [decode?]
    simp -implicitDefEqProofs [hslots]

instance : LawfulWire Review.Completion where
  decode?_encode c := by
    have hslots : (encode c).slots? ["id", "model", "content", "stop_reason", "usage"] =
        some ⟨_, false⟩ :=
      slots?_obj (.refl _) (by decide)
    dsimp only [decode?]
    simp -implicitDefEqProofs [hslots]

end Wire

/-! ### Writable forms -/

/-- Values of the type are written as scalars, and as integers where they are written as numbers. -/
class ScalarWire (α : Type) [Wire α] : Prop where
  writable : ∀ (a : α) (n : Nat), (encode a).Writable n

attribute [simp] ScalarWire.writable

namespace Json.Writable

instance : ScalarWire Bool := ⟨fun b _ => .bool b⟩

instance : ScalarWire String := ⟨fun s _ => .str s⟩

instance : ScalarWire UInt16 := ⟨fun w _ => .nat (w.toNat_lt.trans (by decide))⟩

instance : ScalarWire UInt32 := ⟨fun w _ => .nat (w.toNat_lt.trans (by decide))⟩

instance : ScalarWire UInt64 := ⟨fun w _ => .nat w.toNat_lt⟩

instance : ScalarWire Severity := ⟨fun s _ => .str s.name⟩

instance : ScalarWire Specification.Weakness := ⟨fun w _ => .str w.label⟩

instance : ScalarWire Source.Weakness := ⟨fun w _ => .str w.label⟩

instance : ScalarWire Source.Risk := ⟨fun r _ => .str r.name⟩

instance : ScalarWire Review.Role := ⟨fun r _ => .str r.name⟩

instance : ScalarWire Review.StopReason := ⟨fun r _ => .str r.name⟩

instance : ScalarWire LogFormat := ⟨fun f _ => .str f.name⟩

instance : ScalarWire (Option String) where
  writable
    | none, _ => .null
    | some s, _ => .str s

variable {n : Nat}

theorem list {α : Type} [Wire α] {as : List α} (h : ∀ a ∈ as, (encode a).Writable n) :
    (encode as).Writable (n + 1) := by
  refine .arr fun v hv => ?_
  obtain ⟨a, ha, rfl⟩ := List.mem_map.mp hv
  exact h a ha

@[simp] theorem scalars {α : Type} [Wire α] [ScalarWire α] (as : List α) :
    (encode as).Writable (n + 1) :=
  .list fun a _ => ScalarWire.writable a n

theorem specificationFinding (f : Specification.Finding) : (encode f).Writable (n + 1) :=
  .obj (by simp)

theorem specificationReport (r : Specification.Report) : (encode r).Writable (n + 3) := by
  have hissues : (encode r.issues).Writable (n + 2) := .list fun f _ => specificationFinding f
  exact .obj (by simp [hissues])

theorem failure (f : Specification.Failure) : (encode f).Writable (n + 1) :=
  .obj (by simp)

theorem outcome : ∀ o : Specification.Outcome, (encode o).Writable (n + 3)
  | .report r => specificationReport r
  | .failure f => failure f

theorem sourceFinding {f : Source.Finding} (hf : f.line < UInt64.size) :
    (encode f).Writable (n + 1) := by
  have hline : (encode f.line).Writable n := .nat hf
  exact .obj (by simp [hline])

theorem sourceReport {r : Source.Report} (hr : ∀ f ∈ r.vulnerabilities, f.line < UInt64.size) :
    (encode r).Writable (n + 3) := by
  have hfindings : (encode r.vulnerabilities).Writable (n + 2) :=
    .list fun f hf => sourceFinding (hr f hf)
  exact .obj (by simp [hfindings])

theorem issue (i : Review.Issue) : (encode i).Writable (n + 1) :=
  .obj (by simp)

theorem reviewReport (r : Review.Report) : (encode r).Writable (n + 3) := by
  have hissues : (encode r.issues).Writable (n + 2) := .list fun i _ => issue i
  exact .obj (by simp [hissues])

theorem message (m : Review.Message) : (encode m).Writable (n + 1) :=
  .obj (by simp)

theorem request (r : Review.Request) : (encode r).Writable (n + 3) := by
  have hmessages : (encode r.messages).Writable (n + 2) := .list fun m _ => message m
  refine .obj ?_
  cases r.model <;> simp [hmessages]

theorem completion (c : Review.Completion) : (encode c).Writable (n + 2) := by
  have husage : (encode c.usage).Writable (n + 1) := .obj (by simp)
  exact .obj (by simp [husage])

theorem config (c : Config) : (encode c).Writable (n + 3) := by
  have hserver : (encode c.server).Writable (n + 2) := .obj (by simp)
  have hlogging : (encode c.logging).Writable (n + 2) := .obj (by simp)
  have hscanning : (encode c.scanning).Writable (n + 2) := .obj (by simp)
  have hreviewer : (encode c.reviewer).Writable (n + 2) := .obj (by simp)
  exact .obj (by simp [hserver, hlogging, hscanning, hreviewer])

end Json.Writable

end SecurityScan
