import SecurityScan.Specification.Tree
import SecurityScan.Specification.Reference
import SecurityScan.Specification.Model.Check

namespace SecurityScan.Specification

/-!
# Validation

Only a document that states a supported version, has the parts that every specification has and
refers to nothing outside itself is scanned.

* `Version` and `versionOf` — the supported versions;
* `Violation` — the ways in which a document can fail, and `Violation.message`;
* `validate` — the first violation of a document, in the order version, information, paths,
  references, model.
-/

/-- A supported version. -/
inductive Version where
  | swagger2 | openApi30 | openApi31
deriving DecidableEq, Repr

/-- Why a document is no valid specification. -/
inductive Violation where
  | rootNotObject
  | unsupportedSwagger (version : String)
  | noVersion
  | unsupportedOpenApi (version : String)
  | versionNotString
  | noInfo
  | noInfoField (name : String)
  | noPaths
  | pathsNotObject
  | pathWithoutSlash (path : String)
  | pathItemNotObject (path : String)
  | brokenReference (reference : String) (why : BrokenReference)
  /-- The document of version 3.1 does not have the shape of its model. -/
  | notOfModel
deriving DecidableEq, Repr

/-- The versions named in messages. -/
def supportedVersions : String := "Supported versions are 2.0, 3.0.x and 3.1.x"

/-- The wording of a broken reference. -/
def BrokenReference.message : BrokenReference → String
  | .external => "external references are not supported"
  | .dangling => "target does not exist"

/-- The wording of a violation. -/
def Violation.message : Violation → String
  | .rootNotObject => "Document is not a valid API definition: root must be an object"
  | .unsupportedSwagger v =>
    "Unsupported Swagger version: " ++ v ++ ". " ++ supportedVersions
  | .noVersion =>
    "Document is not a valid API definition: missing 'openapi' or 'swagger' version field"
  | .unsupportedOpenApi v =>
    "Unsupported OpenAPI version: " ++ v ++ ". " ++ supportedVersions
  | .versionNotString => "OpenAPI version number must be a string"
  | .noInfo => "Missing required property 'info' at root"
  | .noInfoField name => "Missing required property '" ++ name ++ "' at info"
  | .noPaths => "Missing required property 'paths' at root"
  | .pathsNotObject => "'paths' must be an object"
  | .pathWithoutSlash path => "Path '" ++ path ++ "' must begin with a forward slash"
  | .pathItemNotObject path => "Path item '" ++ path ++ "' must be an object"
  | .brokenReference r why => "Error resolving $ref pointer \"" ++ r ++ "\": " ++ why.message
  | .notOfModel => "Invalid OpenAPI 3.1 document: the document does not have the model's shape"

/-- The version a document states.  A string under `swagger` decides; otherwise `openapi` does. -/
def versionOf (doc : Json) : Except Violation Version :=
  match (doc.get? "swagger").bind Json.asStr? with
  | some v => if v = "2.0" then .ok .swagger2 else .error (.unsupportedSwagger v)
  | none =>
    match doc.get? "openapi" with
    | none => .error .noVersion
    | some (.str v) =>
      if v.startsWith "3.0." then .ok .openApi30
      else if v.startsWith "3.1." then .ok .openApi31
      else .error (.unsupportedOpenApi v)
    | some _ => .error .versionNotString

/-- The document must have an object `info` with a title and a version. -/
def checkInfo (doc : Json) : Except Violation Unit :=
  match doc.get? "info" with
  | none => .error .noInfo
  | some info =>
    if !info.isObj then .error .noInfo
    else if ((info.get? "title").bind Json.asStr?).isNone then .error (.noInfoField "title")
    else if ((info.get? "version").bind Json.asStr?).isNone then .error (.noInfoField "version")
    else .ok ()

/-- Every path starts with a slash and leads to an object. -/
def checkPathItems : List (String × Json) → Except Violation Unit
  | [] => .ok ()
  | (path, item) :: rest =>
    if !path.startsWith "/" then .error (.pathWithoutSlash path)
    else if !item.isObj then .error (.pathItemNotObject path)
    else checkPathItems rest

/-- The document must have paths; only in version 3.1 may they be left out. -/
def checkPaths (doc : Json) (version : Version) : Except Violation Unit :=
  match doc.get? "paths" with
  | none => if version = .openApi31 then .ok () else .error .noPaths
  | some (.obj ms) => checkPathItems (Json.obj ms).entries
  | some _ => .error .pathsNotObject

/-- Every reference leads to a place in the document. -/
def checkReferences (doc : Json) : List String → Except Violation Unit
  | [] => .ok ()
  | r :: rs => match targetOf doc r with
    | .error why => .error (.brokenReference r why)
    | .ok _ => checkReferences doc rs

/-- The first violation of a document. -/
def validate (doc : Json) : Except Violation Unit := do
  if !doc.isObj then throw .rootNotObject
  let version ← versionOf doc
  checkInfo doc
  checkPaths doc version
  checkReferences doc (references doc)
  if version = .openApi31 && !Model.isSpecification doc then throw .notOfModel

end SecurityScan.Specification
