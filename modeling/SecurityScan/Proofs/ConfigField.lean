import SecurityScan.Config.Section

namespace SecurityScan

/-!
# The fields of a configuration

What holds of a configuration field by field is said once, about `ConfigField`.

* `ConfigField` — the fields of all sections, each with its `part`, its `key` and its `Value`s;
* `ConfigField.get` — the value a configuration has there, and `ConfigField.ext`: a configuration is
  what its fields are;
* `ConfigField.read?` — how the field reads a setting;
* `Settings.HasSections` and `Settings.part` — settings in which every section that is set is a
  table, and the entries of a section;
* `ConfigField.setting?` and `ConfigField.of?` — the setting of the field, and the value it is read
  as;
* `Config.ofSettings?_eq_some_iff` — settings that have their sections stand for the configuration
  whose fields they are read as;
* `Config.check_eq_ok_iff` and `Config.check_eq_error_iff` — what the rules of the sections make of
  a configuration.
-/

/-- A field of a configuration. -/
inductive ConfigField where
  | host | port | requestTimeout | bodyLimit | allowedOrigins
  | level | format
  | enabledAnalyzers | excludePaths
  | endpoint | apiKey | model | reviewTimeout
deriving DecidableEq, Repr

namespace ConfigField

/-- The name of the section that has the field. -/
def part : ConfigField → String
  | .host | .port | .requestTimeout | .bodyLimit | .allowedOrigins => "server"
  | .level | .format => "logging"
  | .enabledAnalyzers | .excludePaths => "api_security"
  | .endpoint | .apiKey | .model | .reviewTimeout => "llm"

/-- The name of the field in its section. -/
def key : ConfigField → String
  | .host => "host"
  | .port => "port"
  | .requestTimeout => "request_timeout_seconds"
  | .bodyLimit => "max_body_bytes"
  | .allowedOrigins => "allowed_origins"
  | .level => "level"
  | .format => "format"
  | .enabledAnalyzers => "enabled_analyzers"
  | .excludePaths => "exclude_paths"
  | .endpoint => "endpoint"
  | .apiKey => "api_key"
  | .model => "model"
  | .reviewTimeout => "timeout_seconds"

/-- The values of the field. -/
def Value : ConfigField → Type
  | .host | .level | .model => String
  | .port => UInt16
  | .requestTimeout | .bodyLimit | .reviewTimeout => UInt64
  | .allowedOrigins | .enabledAnalyzers | .excludePaths => List String
  | .format => LogFormat
  | .endpoint | .apiKey => Option String

/-- The value of the field. -/
def get : (f : ConfigField) → Config → f.Value
  | .host, c => c.server.host
  | .port, c => c.server.port
  | .requestTimeout, c => c.server.requestTimeoutSeconds
  | .bodyLimit, c => c.server.maxBodyBytes
  | .allowedOrigins, c => c.server.allowedOrigins
  | .level, c => c.logging.level
  | .format, c => c.logging.format
  | .enabledAnalyzers, c => c.scanning.enabledAnalyzers
  | .excludePaths, c => c.scanning.excludePaths
  | .endpoint, c => c.reviewer.endpoint
  | .apiKey, c => c.reviewer.apiKey
  | .model, c => c.reviewer.model
  | .reviewTimeout, c => c.reviewer.timeoutSeconds

/-- The value that a setting is read as. -/
def read? : (f : ConfigField) → Setting → Option f.Value
  | .host, v | .level, v | .model, v => v.text?
  | .port, v => (v.word? UInt16.size).map UInt16.ofNat
  | .requestTimeout, v | .bodyLimit, v | .reviewTimeout, v =>
    (v.word? UInt64.size).map UInt64.ofNat
  | .allowedOrigins, v | .enabledAnalyzers, v | .excludePaths, v => v.texts?
  | .format, v => v.format?
  | .endpoint, v | .apiKey, v => v.optionalText?

/-- A configuration is what its fields are. -/
theorem ext {c c' : Config} (h : ∀ f : ConfigField, f.get c = f.get c') : c = c' := by
  obtain ⟨server, logging, scanning, reviewer⟩ := c
  obtain ⟨server', logging', scanning', reviewer'⟩ := c'
  have hserver : server = server' := by
    cases server; cases server'
    rw [ServerConfig.mk.injEq]
    exact ⟨h .host, h .port, h .requestTimeout, h .bodyLimit, h .allowedOrigins⟩
  have hlogging : logging = logging' := by
    cases logging; cases logging'
    rw [LoggingConfig.mk.injEq]
    exact ⟨h .level, h .format⟩
  have hscanning : scanning = scanning' := by
    cases scanning; cases scanning'
    rw [ScanSettings.mk.injEq]
    exact ⟨h .enabledAnalyzers, h .excludePaths⟩
  have hreviewer : reviewer = reviewer' := by
    cases reviewer; cases reviewer'
    rw [ReviewerConfig.mk.injEq]
    exact ⟨h .endpoint, h .apiKey, h .model, h .reviewTimeout⟩
  rw [hserver, hlogging, hscanning, hreviewer]

end ConfigField

/-! ### Fields in settings -/

open Setting

/-- The names of the sections. -/
def sectionNames : List String := ["server", "logging", "api_security", "llm"]

theorem ConfigField.part_mem (f : ConfigField) : f.part ∈ sectionNames := by
  cases f <;> decide

namespace Settings

/-- Every section that is set is a table. -/
def HasSections (es : Settings) : Prop :=
  ∀ name ∈ sectionNames, ∀ v, es.lookup name = some v → v = .table v.entries

/-- The entries of a section; none if it is not set. -/
def part (es : Settings) (name : String) : Settings :=
  ((es.lookup name).map entries).getD []

/-- A section that is not set is as good as an empty table. -/
theorem HasSections.field_eq {es : Settings} (h : es.HasSections) {α : Type} {name : String}
    {read : Setting → Option α} {default : α} (hname : name ∈ sectionNames)
    (hread : read (.table []) = some default) :
    field es name read default = read (.table (es.part name)) := by
  rw [field, part]
  cases hlookup : es.lookup name with
  | none => exact hread.symm
  | some v =>
    have hv := h name hname v hlookup
    dsimp only [Option.map_some, Option.getD_some]
    rw [← hv]

end Settings

namespace ConfigField

/-- The setting of the field. -/
def setting? (f : ConfigField) (es : Settings) : Option Setting := (es.part f.part).lookup f.key

/-- The value of the field in settings: what its setting is read as, or the value it has where it is
    not set. -/
def of? (f : ConfigField) (es : Settings) : Option f.Value :=
  field (es.part f.part) f.key f.read? (f.get {})

end ConfigField

/-- **Fields.** Settings whose sections are tables stand for the configuration whose fields they are
    read as. -/
theorem Config.ofSettings?_eq_some_iff {es : Settings} (h : es.HasSections) {c : Config} :
    Config.ofSettings? es = some c ↔ ∀ f : ConfigField, f.of? es = some (f.get c) := by
  have hserver : field es "server" ServerConfig.ofSetting? {} = _ :=
    h.field_eq (by decide) rfl
  have hlogging : field es "logging" LoggingConfig.ofSetting? {} = _ :=
    h.field_eq (by decide) rfl
  have hscanning : field es "api_security" ScanSettings.ofSetting? {} = _ :=
    h.field_eq (by decide) rfl
  have hreviewer : field es "llm" ReviewerConfig.ofSetting? {} = _ :=
    h.field_eq (by decide) rfl
  rw [Config.ofSettings?, hserver, hlogging, hscanning, hreviewer, ServerConfig.ofSetting?,
    LoggingConfig.ofSetting?, ScanSettings.ofSetting?, ReviewerConfig.ofSetting?]
  simp only [fields?, Option.bind_eq_bind, Option.bind_some, Option.bind_eq_some_iff,
    Option.pure_def, Option.some.injEq]
  constructor
  · rintro ⟨server, ⟨_, hhost, _, hport, _, htimeout, _, hbody, _, horigins, rfl⟩,
      logging, ⟨_, hlevel, _, hformat, rfl⟩, scanning, ⟨_, hanalyzers, _, hpaths, rfl⟩,
      reviewer, ⟨_, hendpoint, _, hkey, _, hmodel, _, hreview, rfl⟩, rfl⟩ f
    cases f with
    | host => exact hhost
    | port => exact hport
    | requestTimeout => exact htimeout
    | bodyLimit => exact hbody
    | allowedOrigins => exact horigins
    | level => exact hlevel
    | format => exact hformat
    | enabledAnalyzers => exact hanalyzers
    | excludePaths => exact hpaths
    | endpoint => exact hendpoint
    | apiKey => exact hkey
    | model => exact hmodel
    | reviewTimeout => exact hreview
  · intro hf
    exact ⟨_, ⟨_, hf .host, _, hf .port, _, hf .requestTimeout, _, hf .bodyLimit, _,
      hf .allowedOrigins, rfl⟩, _, ⟨_, hf .level, _, hf .format, rfl⟩, _,
      ⟨_, hf .enabledAnalyzers, _, hf .excludePaths, rfl⟩, _,
      ⟨_, hf .endpoint, _, hf .apiKey, _, hf .model, _, hf .reviewTimeout, rfl⟩, rfl⟩

/-! ### Rules -/

/-- The sections that have rules are looked at one after the other. -/
theorem Config.check_eq_ok_iff {c : Config} :
    c.check = .ok () ↔
      c.server.check = .ok () ∧ c.logging.check = .ok () ∧ c.reviewer.check = .ok () := by
  unfold Config.check
  cases c.server.check <;> cases c.logging.check <;> cases c.reviewer.check <;>
    simp [bind, Except.bind]

/-- The violation is that of the first section that breaks one of its rules. -/
theorem Config.check_eq_error_iff {c : Config} {v : ConfigViolation} :
    c.check = .error v ↔
      c.server.check = .error v ∨
      c.server.check = .ok () ∧ c.logging.check = .error v ∨
      c.server.check = .ok () ∧ c.logging.check = .ok () ∧ c.reviewer.check = .error v := by
  unfold Config.check
  cases c.server.check <;> cases c.logging.check <;> cases c.reviewer.check <;>
    simp [bind, Except.bind]

end SecurityScan
