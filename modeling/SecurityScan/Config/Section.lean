import SecurityScan.Config.Setting
import SecurityScan.Config.Basic

namespace SecurityScan

/-!
# Configurations from settings

* `Setting.format?` — a setting as one of the log formats;
* `Setting.fields?` and `Setting.field` — the settings of one section, and one of them;
* `Config.ofSettings?` — a whole configuration: what is not set keeps its own value, and what no
  section asks for is passed over.
-/

namespace Setting

/-- A setting as one of the log formats: its word, or a table with the word as its only key. -/
def format? : Setting → Option LogFormat
  | .text s => LogFormat.all.find? fun f => f.name == s
  | .table [(s, _)] => LogFormat.all.find? fun f => f.name == s
  | _ => none

/-- A setting as a text that may be missing. -/
def optionalText? : Setting → Option (Option String)
  | .unset => some none
  | v => v.text?.map some

/-- The fields of a section: by name in a table, by position in a list. -/
def fields? (names : List String) : Setting → Option Settings
  | .table es => some es
  | .list vs => some (names.zip vs)
  | _ => none

/-- A field of a section, or the value it has where it is not set. -/
def field {α : Type} (es : Settings) (name : String) (read : Setting → Option α) (default : α) :
    Option α :=
  match es.lookup name with
  | some v => read v
  | none => some default

end Setting

/-! ### Sections -/

open Setting

/-- The server section of settings. -/
def ServerConfig.ofSetting? (v : Setting) : Option ServerConfig := do
  let es ← v.fields?
    ["host", "port", "request_timeout_seconds", "max_body_bytes", "allowed_origins"]
  let d : ServerConfig := {}
  return {
    host := ← field es "host" text? d.host
    port := ← field es "port" (fun v => (word? UInt16.size v).map UInt16.ofNat) d.port
    requestTimeoutSeconds := ← field es "request_timeout_seconds"
      (fun v => (word? UInt64.size v).map UInt64.ofNat) d.requestTimeoutSeconds
    maxBodyBytes := ← field es "max_body_bytes"
      (fun v => (word? UInt64.size v).map UInt64.ofNat) d.maxBodyBytes
    allowedOrigins := ← field es "allowed_origins" texts? d.allowedOrigins }

/-- The logging section of settings. -/
def LoggingConfig.ofSetting? (v : Setting) : Option LoggingConfig := do
  let es ← v.fields? ["level", "format"]
  let d : LoggingConfig := {}
  return { level := ← field es "level" text? d.level, format := ← field es "format" format? d.format }

/-- The scanning section of settings. -/
def ScanSettings.ofSetting? (v : Setting) : Option ScanSettings := do
  let es ← v.fields? ["enabled_analyzers", "exclude_paths"]
  return {
    enabledAnalyzers := ← field es "enabled_analyzers" texts? []
    excludePaths := ← field es "exclude_paths" texts? [] }

/-- The reviewer section of settings. -/
def ReviewerConfig.ofSetting? (v : Setting) : Option ReviewerConfig := do
  let es ← v.fields? ["endpoint", "api_key", "model", "timeout_seconds"]
  let d : ReviewerConfig := {}
  return {
    endpoint := ← field es "endpoint" optionalText? d.endpoint
    apiKey := ← field es "api_key" optionalText? d.apiKey
    model := ← field es "model" text? d.model
    timeoutSeconds := ← field es "timeout_seconds"
      (fun v => (word? UInt64.size v).map UInt64.ofNat) d.timeoutSeconds }

/-- The configuration that settings stand for. -/
def Config.ofSettings? (es : Settings) : Option Config := do
  return {
    server := ← field es "server" ServerConfig.ofSetting? {}
    logging := ← field es "logging" LoggingConfig.ofSetting? {}
    scanning := ← field es "api_security" ScanSettings.ofSetting? {}
    reviewer := ← field es "llm" ReviewerConfig.ofSetting? {} }

end SecurityScan
