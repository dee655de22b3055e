import SecurityScan.Proofs.WireForm
import SecurityScan.Proofs.ConfigField
import SecurityScan.Proofs.Omission

namespace SecurityScan

open Wire Json

/-!
# Nothing is lost on the wire

* `withDefault_without` — a field reads what was written, or has its own value if its member was
  left out;
* `Config.decode?_without` — so a configuration is read back with the fields that were left out, or
  whose section was, as they are by default;
* `Wire.lossless` — the values of every type that travels survive their texts.
-/

/-! ### Members left out -/

namespace Json

/-- A value with members left out is still writable. -/
theorem Writable.without {v : Json} {n : Nat} (h : v.Writable n) (gone : List String → Bool) :
    (v.without gone).Writable n := by
  induction v using Json.induct generalizing n gone with
  | null | bool | num | str | arr => exact h
  | obj ms ih =>
    obtain ⟨m, rfl, hms⟩ := h.exists_of_obj
    rw [Json.without, withoutMembers_eq_map]
    refine .obj fun p hp => ?_
    obtain ⟨q, hq, rfl⟩ := List.mem_map.mp hp
    have hq := List.mem_of_mem_filter hq
    exact ih q hq (hms q hq) _

end Json

/-- Values of the type are not written as objects, so nothing can be left out of them. -/
class LeafWire (α : Type) [Wire α] : Prop where
  without_encode : ∀ (a : α) (gone : List String → Bool), (encode a).without gone = encode a

instance : LeafWire String := ⟨fun _ _ => rfl⟩

instance : LeafWire UInt16 := ⟨fun _ _ => rfl⟩

instance : LeafWire UInt64 := ⟨fun _ _ => rfl⟩

instance : LeafWire LogFormat := ⟨fun _ _ => rfl⟩

instance {α : Type} [Wire α] : LeafWire (List α) := ⟨fun _ _ => rfl⟩

instance : LeafWire (Option String) where
  without_encode
    | none, _ => rfl
    | some _, _ => rfl

/-! ### Sections with fields left out -/

variable {gone : List String → Bool}

section

variable {α : Type} [Wire α] {ms : Members} {k name : String} {v : Json}

theorem slots?_without {names : List String} (hkeys : ms.keys.Sublist names)
    (hnames : names.Nodup) :
    ((Json.obj ms).without gone).slots? names = some ⟨withoutMembers gone ms, false⟩ :=
  slots?_obj ((keys_withoutMembers gone ms).trans hkeys) hnames

/-- A field reads what was written and not left out of it; if its member was left out, it has its
    own value. -/
theorem withDefault_without {a : α} (default : α)
    (hv : decode? (v.without fun path => gone (name :: path)) = some a) :
    Slots.withDefault ⟨withoutMembers gone ((name, v) :: ms), false⟩ name default =
      some (if gone [name] then default else a) := by
  rw [Slots.withDefault, get?_withoutMembers, Members.get?, if_pos rfl]
  cases gone [name]
  · exact hv
  · rfl

@[simp] theorem withDefault_without_self [LawfulWire α] [LeafWire α] (a default : α) :
    Slots.withDefault ⟨withoutMembers gone ((name, encode a) :: ms), false⟩ name default =
      some (if gone [name] then default else a) :=
  withDefault_without default (by rw [LeafWire.without_encode, LawfulWire.decode?_encode])

@[simp] theorem withDefault_without_cons (h : k ≠ name) (default : α) :
    Slots.withDefault ⟨withoutMembers gone ((k, v) :: ms), false⟩ name default =
      Slots.withDefault ⟨withoutMembers gone ms, false⟩ name default := by
  simp only [Slots.withDefault, get?_withoutMembers, Members.get?, if_neg h]

end

theorem ServerConfig.decode?_without (c : ServerConfig) :
    decode? ((encode c).without gone) = some ({
      host := if gone ["host"] then "127.0.0.1" else c.host
      port := if gone ["port"] then 3000 else c.port
      requestTimeoutSeconds :=
        if gone ["request_timeout_seconds"] then 30 else c.requestTimeoutSeconds
      maxBodyBytes := if gone ["max_body_bytes"] then 2097152 else c.maxBodyBytes
      allowedOrigins := if gone ["allowed_origins"] then [] else c.allowedOrigins } :
        ServerConfig) := by
  have hslots : ((encode c).without gone).slots?
      ["host", "port", "request_timeout_seconds", "max_body_bytes", "allowed_origins"] =
      some ⟨_, false⟩ :=
    slots?_without (.refl _) (by decide)
  dsimp only [decode?]
  simp -implicitDefEqProofs [hslots]

theorem LoggingConfig.decode?_without (c : LoggingConfig) :
    decode? ((encode c).without gone) = some ({
      level := if gone ["level"] then "info" else c.level
      format := if gone ["format"] then .pretty else c.format } : LoggingConfig) := by
  have hslots : ((encode c).without gone).slots? ["level", "format"] = some ⟨_, false⟩ :=
    slots?_without (.refl _) (by decide)
  dsimp only [decode?]
  simp -implicitDefEqProofs [hslots]

theorem ScanSettings.decode?_without (c : ScanSettings) :
    decode? ((encode c).without gone) = some ({
      enabledAnalyzers := if gone ["enabled_analyzers"] then [] else c.enabledAnalyzers
      excludePaths := if gone ["exclude_paths"] then [] else c.excludePaths } : ScanSettings) := by
  have hslots : ((encode c).without gone).slots? ["enabled_analyzers", "exclude_paths"] =
      some ⟨_, false⟩ :=
    slots?_without (.refl _) (by decide)
  dsimp only [decode?]
  simp -implicitDefEqProofs [hslots]

theorem ReviewerConfig.decode?_without (c : ReviewerConfig) :
    decode? ((encode c).without gone) = some ({
      endpoint := if gone ["endpoint"] then none else c.endpoint
      apiKey := if gone ["api_key"] then none else c.apiKey
      model := if gone ["model"] then "gpt-4" else c.model
      timeoutSeconds := if gone ["timeout_seconds"] then 120 else c.timeoutSeconds } :
        ReviewerConfig) := by
  have hslots : ((encode c).without gone).slots?
      ["endpoint", "api_key", "model", "timeout_seconds"] = some ⟨_, false⟩ :=
    slots?_without (.refl _) (by decide)
  dsimp only [decode?]
  simp -implicitDefEqProofs [hslots]

/-- **Members left out.** A configuration from whose form sections and fields are left out is read
    back with exactly those fields as they are by default. -/
theorem Config.decode?_without (gone : List String → Bool) (c : Config) :
    ∃ c' : Config, decode? ((encode c).without gone) = some c' ∧ ∀ f : ConfigField,
      f.get c' = if gone [f.part] || gone [f.part, f.key] then f.get {} else f.get c := by
  have hslots : ((encode c).without gone).slots? ["server", "logging", "api_security", "llm"] =
      some ⟨_, false⟩ :=
    slots?_without (.refl _) (by decide)
  refine ⟨_, by
    dsimp only [decode?]
    rw [hslots]
    simp -implicitDefEqProofs [withDefault_without _ c.server.decode?_without,
      withDefault_without _ c.logging.decode?_without,
      withDefault_without _ c.scanning.decode?_without,
      withDefault_without _ c.reviewer.decode?_without]
    rfl, fun f => ?_⟩
  -- a field is gone with its section, or on its own
  cases hpart : gone [f.part] <;> cases f <;>
    simp_all [ConfigField.get, ConfigField.part, ConfigField.key] <;> rfl

instance : LawfulWire Config where
  decode?_encode c := by
    obtain ⟨c', hc', hfields⟩ := c.decode?_without fun _ => false
    have hsame : c' = c := ConfigField.ext fun f => by simpa using hfields f
    rw [without_never, hsame] at hc'
    exact hc'

/-! ### All types that travel -/

/-- The value survives its JSON text. -/
def Wire.Survives {α : Type} [Wire α] (a : α) : Prop := ofText? (text a) = some a

/-- **Lossless wire formats.** Every value of a type that travels survives its text: an answer comes
    back as the report or the failure that it was, and an absent text stays absent.  A request that
    names no model has no member for it.  A configuration with sections and fields left out of its
    form comes back with exactly those fields as they are by default.  Line numbers are words of 64
    bits. -/
theorem Wire.lossless :
    (∀ f : Specification.Finding, Survives f) ∧
    (∀ r : Specification.Report, Survives r) ∧
    (∀ f : Specification.Failure, Survives f) ∧
    (∀ o : Specification.Outcome, Survives o) ∧
    (∀ f : Source.Finding, f.line < UInt64.size → Survives f) ∧
    (∀ r : Source.Report, (∀ f ∈ r.vulnerabilities, f.line < UInt64.size) → Survives r) ∧
    (∀ r : Review.Report, Survives r) ∧
    (∀ r : Review.Request, Survives r ∧ (r.model = none ↔ (encode r).get? "model" = none)) ∧
    (∀ c : Review.Completion, Survives c) ∧
    (∀ c : Config, Survives c) ∧
    (∀ (c : Config) (gone : List String → Bool), ∃ c' : Config,
      ofText? ((encode c).without gone).compact = some c' ∧ ∀ f : ConfigField,
        f.get c' = if gone [f.part] || gone [f.part, f.key] then f.get {} else f.get c) := by
  refine ⟨fun f => ofText?_text (.specificationFinding f),
    fun r => ofText?_text (.specificationReport r), fun f => ofText?_text (.failure f),
    fun o => ofText?_text (.outcome o), fun f hf => ofText?_text (.sourceFinding hf),
    fun r hr => ofText?_text (.sourceReport hr), fun r => ofText?_text (.reviewReport r),
    fun r => ⟨ofText?_text (.request r), ?_⟩, fun c => ofText?_text (.completion c),
    fun c => ofText?_text (.config c), fun c gone => ?_⟩
  · obtain ⟨messages, model⟩ := r
    cases model <;> simp [encode, Json.get?, Members.get?]
  · rw [ofText?_compact ((Writable.config c).without gone)]
    exact c.decode?_without gone

/-- The last line that a word can count is written and read back. -/
theorem Wire.lossless_lastLine :
    UInt64.size - 1 < UInt64.size ∧
    Survives (⟨.high, .regexInjection, UInt64.size - 1, "\u0007 \"", ""⟩ : Source.Finding) ∧
    Survives
      (⟨[⟨.low, .userExperience, UInt64.size - 1, "", "é"⟩], [], .low, none⟩ : Source.Report) := by
  obtain ⟨-, -, -, -, hfinding, hreport, -⟩ := lossless
  exact ⟨by decide, hfinding _ (by decide), hreport _ (by decide)⟩

-- a failure may quote the fields of a report
example : text (⟨true, "\"issues\": []"⟩ : Specification.Failure) =
    "\x7b\"valid\":true,\"error\":\"\\\"issues\\\": []\"\x7d" := by
  decide +kernel

end SecurityScan
