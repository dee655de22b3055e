import SecurityScan.Json.Wire
import SecurityScan.Text.Blank
import SecurityScan.Scan

namespace SecurityScan

/-!
# Configuration

* `ServerConfig`, `LoggingConfig`, `ReviewerConfig` — the sections, besides the `ScanSettings`;
* `Config` — all sections; every field has a value of its own where none is given;
* `ReviewerConfig.isConfigured` — the reviewer has an address and a key;
* `ConfigViolation` and `Config.check` — the first rule that a configuration breaks, section by
  section.
-/

/-- How the service listens. -/
structure ServerConfig where
  host : String := "127.0.0.1"
  port : UInt16 := 3000
  /-- How long a request may take. -/
  requestTimeoutSeconds : UInt64 := 30
  /-- How long the body of a request may be. -/
  maxBodyBytes : UInt64 := 2097152
  /-- The origins that browsers may send requests from; any origin if there are none. -/
  allowedOrigins : List String := []
deriving DecidableEq, Repr

instance : Wire ServerConfig where
  encode c := .obj [
    ("host", encode c.host), ("port", encode c.port),
    ("request_timeout_seconds", encode c.requestTimeoutSeconds),
    ("max_body_bytes", encode c.maxBodyBytes), ("allowed_origins", encode c.allowedOrigins)]
  decode? v := do
    let s ← v.slots?
      ["host", "port", "request_timeout_seconds", "max_body_bytes", "allowed_origins"]
    let d : ServerConfig := {}
    return {
      host := ← s.withDefault "host" d.host
      port := ← s.withDefault "port" d.port
      requestTimeoutSeconds := ← s.withDefault "request_timeout_seconds" d.requestTimeoutSeconds
      maxBodyBytes := ← s.withDefault "max_body_bytes" d.maxBodyBytes
      allowedOrigins := ← s.withDefault "allowed_origins" d.allowedOrigins }

/-- How log lines look. -/
inductive LogFormat where
  | pretty | json
deriving DecidableEq, Repr

namespace LogFormat

/-- The word for a format. -/
def name : LogFormat → String
  | .pretty => "pretty"
  | .json => "json"

/-- All formats. -/
def all : List LogFormat := [.pretty, .json]

instance : Wire LogFormat where
  encode f := .str f.name
  decode? := Wire.oneOf? name all

end LogFormat

/-- What is logged, and how. -/
structure LoggingConfig where
  /-- A log filter. -/
  level : String := "info"
  format : LogFormat := .pretty
deriving DecidableEq, Repr

instance : Wire LoggingConfig where
  encode c := .obj [("level", encode c.level), ("format", encode c.format)]
  decode? v := do
    let s ← v.slots? ["level", "format"]
    let d : LoggingConfig := {}
    return {
      level := ← s.withDefault "level" d.level, format := ← s.withDefault "format" d.format }

/-- The text generator that reviews source text. -/
structure ReviewerConfig where
  /-- The address that requests are sent to. -/
  endpoint : Option String := none
  apiKey : Option String := none
  model : String := "gpt-4"
  timeoutSeconds : UInt64 := 120
deriving DecidableEq, Repr

instance : Wire ReviewerConfig where
  encode c := .obj [
    ("endpoint", encode c.endpoint), ("api_key", encode c.apiKey), ("model", encode c.model),
    ("timeout_seconds", encode c.timeoutSeconds)]
  decode? v := do
    let s ← v.slots? ["endpoint", "api_key", "model", "timeout_seconds"]
    let d : ReviewerConfig := {}
    return {
      endpoint := ← s.withDefault "endpoint" d.endpoint
      apiKey := ← s.withDefault "api_key" d.apiKey
      model := ← s.withDefault "model" d.model
      timeoutSeconds := ← s.withDefault "timeout_seconds" d.timeoutSeconds }

/-- The text without the blanks at its ends, if anything is left of it. -/
def nonblank (s : String) : Option String :=
  if (Text.trim s).isEmpty then none else some (Text.trim s)

/-- The reviewer has an address and a key. -/
def ReviewerConfig.isConfigured (c : ReviewerConfig) : Bool :=
  (c.endpoint.bind nonblank).isSome && (c.apiKey.bind nonblank).isSome

/-- A whole configuration. -/
structure Config where
  server : ServerConfig := {}
  logging : LoggingConfig := {}
  scanning : ScanSettings := {}
  reviewer : ReviewerConfig := {}
deriving DecidableEq, Repr

instance : Wire Config where
  encode c := .obj [
    ("server", encode c.server), ("logging", encode c.logging),
    ("api_security", encode c.scanning), ("llm", encode c.reviewer)]
  decode? v := do
    let s ← v.slots? ["server", "logging", "api_security", "llm"]
    return {
      server := ← s.withDefault "server" {}, logging := ← s.withDefault "logging" {}
      scanning := ← s.withDefault "api_security" {}, reviewer := ← s.withDefault "llm" {} }

/-! ### Rules -/

/-- A rule that a configuration breaks. -/
inductive ConfigViolation where
  | blankHost | zeroPort | zeroRequestTimeout | zeroBodyLimit
  | blankLevel
  | zeroReviewTimeout | blankModel
  | foreignEndpoint (endpoint : String)
deriving DecidableEq, Repr

/-- The sections that have rules. -/
inductive ConfigSection where
  | server | logging | reviewer
deriving DecidableEq, Repr

/-- The section a rule belongs to. -/
def ConfigViolation.part : ConfigViolation → ConfigSection
  | .blankHost | .zeroPort | .zeroRequestTimeout | .zeroBodyLimit => .server
  | .blankLevel => .logging
  | .zeroReviewTimeout | .blankModel | .foreignEndpoint _ => .reviewer

/-- How a section's rules are introduced. -/
def ConfigSection.lead : ConfigSection → String
  | .server => "Server configuration error: "
  | .logging => "Logging configuration error: "
  | .reviewer => "LLM configuration error: "

/-- The wording of a rule. -/
def ConfigViolation.reason : ConfigViolation → String
  | .blankHost => "host must not be empty"
  | .zeroPort => "port must be > 0"
  | .zeroRequestTimeout => "request_timeout_seconds must be > 0"
  | .zeroBodyLimit => "max_body_bytes must be > 0"
  | .blankLevel => "level must not be empty"
  | .zeroReviewTimeout => "timeout_seconds must be > 0"
  | .blankModel => "model must not be empty"
  | .foreignEndpoint e => "endpoint must be an http(s) URL, got '" ++ e ++ "'"

/-- The wording of a violation. -/
def ConfigViolation.message (v : ConfigViolation) : String := v.part.lead ++ v.reason

/-- The first rule that a server section breaks. -/
def ServerConfig.check (c : ServerConfig) : Except ConfigViolation Unit :=
  if (nonblank c.host).isNone then .error .blankHost
  else if c.port = 0 then .error .zeroPort
  else if c.requestTimeoutSeconds = 0 then .error .zeroRequestTimeout
  else if c.maxBodyBytes = 0 then .error .zeroBodyLimit
  else .ok ()

/-- The first rule that a logging section breaks. -/
def LoggingConfig.check (c : LoggingConfig) : Except ConfigViolation Unit :=
  if (nonblank c.level).isNone then .error .blankLevel else .ok ()

/-- The address is one of the two schemes; a blank one is as good as none. -/
def isWebEndpoint (e : String) : Bool :=
  (nonblank e).isNone || e.startsWith "http://" || e.startsWith "https://"

/-- The first rule that a reviewer section breaks. -/
def ReviewerConfig.check (c : ReviewerConfig) : Except ConfigViolation Unit :=
  if c.timeoutSeconds = 0 then .error .zeroReviewTimeout
  else if (nonblank c.model).isNone then .error .blankModel
  else match c.endpoint with
    | some e => if isWebEndpoint e then .ok () else .error (.foreignEndpoint e)
    | none => .ok ()

/-- The first rule that a configuration breaks. -/
def Config.check (c : Config) : Except ConfigViolation Unit := do
  c.server.check
  c.logging.check
  c.reviewer.check

end SecurityScan
