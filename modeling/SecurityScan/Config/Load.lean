import SecurityScan.Toml.Document
import SecurityScan.Config.Environment
import SecurityScan.Config.Section

namespace SecurityScan

/-!
# Loading a configuration

A configuration is read from up to four sources, each laid over those before it: a file of defaults,
a file for the deployment, a file of local changes, and the environment.

* `ConfigFiles.find?` — the text of a configuration file;
* `configSources?` — the sources in their order;
* `Config.load` — the configuration that they make up, if it breaks no rule.
-/

/-- The names and texts of the files in the directory for configurations. -/
abbrev ConfigFiles := List (String × String)

/-- What the names of configuration files end with. -/
def configExtension : String := ".toml"

/-- A file name ends with the extension and has something in front of it. -/
def hasConfigExtension (name : String) : Bool :=
  configExtension.length < name.length && name.endsWith configExtension

/-- The text of the configuration file with a name, which may be written with or without the
    extension.  A file of exactly that name but of another kind hides the one with the extension. -/
def ConfigFiles.find? (files : ConfigFiles) (name : String) : Option String :=
  if name.isEmpty then none
  else match files.lookup name with
    | some text => if hasConfigExtension name then some text else none
    | none => files.lookup (name ++ configExtension)

/-- The names of the configuration files, in the order in which they are read.  The environment may
    name the deployment. -/
def configNames (env : Environment) : List String :=
  "default" :: (env.lookup "ENV").toList ++ ["local"]

/-- The settings of a configuration file; there are none if the file is missing. -/
def ConfigFiles.settings? (files : ConfigFiles) (name : String) : Option Settings :=
  match files.find? name with
  | some text => Toml.parse? text
  | none => some []

/-- All sources in their order; none if a file is malformed. -/
def configSources? (files : ConfigFiles) (env : Environment) : Option (List Settings) := do
  let fromFiles ← (configNames env).mapM files.settings?
  return fromFiles ++ [env.settings]

/-- Why a configuration is not loaded. -/
inductive ConfigLoadError where
  /-- A file is malformed, or a setting does not fit its field. -/
  | malformed
  | invalid (v : ConfigViolation)
deriving DecidableEq, Repr

/-- The wording of a configuration that is not loaded. -/
def ConfigLoadError.message : ConfigLoadError → String
  | .malformed => "Configuration file error"
  | .invalid v => "Configuration validation error: " ++ v.message

/-- The configuration that files and environment make up. -/
def Config.load (files : ConfigFiles) (env : Environment) : Except ConfigLoadError Config :=
  match configSources? files env with
  | none => .error .malformed
  | some sources =>
    match Config.ofSettings? (sources.foldl Settings.overlay []) with
    | none => .error .malformed
    | some c =>
      match c.check with
      | .ok () => .ok c
      | .error v => .error (.invalid v)

end SecurityScan
