import SecurityScan.Specification.Model.Shape

namespace SecurityScan.Specification.Model

open Shape

/-!
# The model of version 3.1

* `Kind.fields` — the fields of every object; keys that are not listed are not looked at.
-/

/-- A field that must be there. -/
def must (name : String) (shape : Shape) : Field := ⟨name, shape, true⟩

/-- A field that may be left out, or be null. -/
def may (name : String) (shape : Shape) : Field := ⟨name, orNull shape, false⟩

/-- A field that may be left out, but not be null. -/
def opt (name : String) (shape : Shape) : Field := ⟨name, shape, false⟩

/-- Lists of requirements, each a dictionary of lists of scopes. -/
def security : Field := opt "security" (list (dict (list text)))

/-- Names mapped to references or objects of a kind. -/
def named (k : Kind) : Shape := dict (orRef (object k))

/-- A reference, or a schema. -/
def schemaRef : Shape := orRef (object .schema)

/-- The types a schema can name. -/
def types : List String := ["boolean", "integer", "number", "string", "array", "object", "null"]

/-- The styles of a parameter. -/
def styles : List String :=
  ["matrix", "label", "form", "simple", "spaceDelimited", "pipeDelimited", "deepObject"]

/-- The fields that parameters and headers share. -/
def valueFields : List Field :=
  [may "description" text, may "required" bool, may "deprecated" bool, may "style" (oneOf styles),
    may "explode" bool, may "schema" schemaRef, opt "example" any, opt "examples" (named .example),
    may "content" (dict (object .mediaType))]

/-- The description of a security scheme. -/
def description : Field := may "description" text

/-- The fields of every object. -/
def Kind.fields : Kind → List Field
  | .spec =>
    [must "openapi" text, must "info" (object .info), opt "servers" (list (object .server)),
      may "paths" (dict (object .pathItem)), may "components" (object .components), security,
      opt "tags" (list (object .tag)), opt "webhooks" (dict (object .pathItem)),
      may "externalDocs" (object .externalDoc)]
  | .info =>
    [must "title" text, must "version" text, may "summary" text, description,
      may "termsOfService" url, may "contact" (object .contact), may "license" (object .license)]
  | .contact => [may "name" text, may "url" url, may "email" text]
  | .license => [must "name" text, may "identifier" text, may "url" url]
  | .server =>
    [must "url" text, description, opt "variables" (dict (object .serverVariable))]
  | .serverVariable => [must "default" text, opt "enum" (list text), description]
  | .tag => [must "name" text, description]
  | .externalDoc => [must "url" url, description]
  | .components =>
    [opt "schemas" (named .schema), opt "responses" (named .response),
      opt "parameters" (named .parameter), opt "examples" (named .example),
      opt "requestBodies" (named .requestBody), opt "headers" (named .header),
      opt "pathItems" (named .pathItem), opt "securitySchemes" (dict (orRef (family .securityScheme))),
      opt "links" (dict (orRef (family .link))), opt "callbacks" (dict (orRef any))]
  | .pathItem =>
    [may "$ref" text, may "summary" text, description] ++
    ["get", "put", "post", "delete", "options", "head", "patch", "trace"].map
      (fun method => may method (object .operation)) ++
    [opt "servers" (list (object .server)), opt "parameters" (list (orRef (object .parameter)))]
  | .operation =>
    [opt "tags" (list text), may "summary" text, description,
      may "externalDocs" (object .externalDoc), may "operationId" text,
      opt "parameters" (list (orRef (object .parameter))),
      may "requestBody" (orRef (object .requestBody)), may "responses" (named .response),
      opt "callbacks" (dict any), may "deprecated" bool, security,
      opt "servers" (list (object .server))]
  | .parameter =>
    [must "name" text, must "in" (oneOf ["path", "query", "header", "cookie"]),
      may "allowEmptyValue" bool, may "allowReserved" bool] ++ valueFields
  | .header => valueFields
  | .requestBody =>
    [must "content" (dict (object .mediaType)), description, may "required" bool]
  | .mediaType => [may "schema" schemaRef, opt "encoding" (dict (object .encoding))]
  | .encoding =>
    [may "contentType" text, opt "headers" (named .header), may "style" text, may "explode" bool,
      may "allowReserved" bool]
  | .response =>
    [description, opt "headers" (named .header), opt "content" (dict (object .mediaType)),
      opt "links" (dict (orRef (family .link)))]
  | .example => [may "summary" text, description, opt "value" any]
  | .linkByReference =>
    [must "operationRef" text, opt "parameters" (dict text), description,
      may "server" (object .server)]
  | .linkById =>
    [must "operationId" text, opt "parameters" (dict text), description,
      may "server" (object .server)]
  | .apiKeyScheme => [must "name" text, must "in" text, description]
  | .httpScheme => [must "scheme" text, may "bearerFormat" text, description]
  | .oauth2Scheme => [must "flows" (object .flows), description]
  | .openIdScheme => [must "openIdConnectUrl" text, description]
  | .mutualTlsScheme => [description]
  | .flows =>
    [may "implicit" (object .implicitFlow), may "password" (object .passwordFlow),
      may "clientCredentials" (object .clientFlow), may "authorizationCode" (object .codeFlow)]
  | .implicitFlow => must "authorizationUrl" url :: flowFields
  | .passwordFlow => must "tokenUrl" url :: flowFields
  | .clientFlow => must "tokenUrl" url :: flowFields
  | .codeFlow => must "authorizationUrl" url :: must "tokenUrl" url :: flowFields
  | .discriminator => [must "propertyName" text, may "mapping" (dict text)]
  | .schema =>
    ["allOf", "anyOf", "oneOf", "prefixItems"].map (fun name => opt name (list schemaRef)) ++
    [opt "properties" (dict schemaRef), may "items" (orBool schemaRef),
      may "additionalProperties" (orBool schemaRef), may "type" (oneOrMore types),
      opt "enum" (list any), opt "const" any, opt "default" any, opt "example" any,
      opt "examples" (list any), opt "required" (list text),
      may "discriminator" (object .discriminator)] ++
    ["multipleOf", "maximum", "exclusiveMaximum", "minimum", "exclusiveMinimum"].map
      (fun name => may name number) ++
    ["maxLength", "minLength", "maxItems", "minItems", "maxProperties", "minProperties"].map
      (fun name => may name word) ++
    ["pattern", "format", "title", "description"].map (fun name => may name text) ++
    ["uniqueItems", "deprecated", "readOnly", "writeOnly"].map (fun name => may name bool)
where
  /-- The fields that all flows share. -/
  flowFields : List Field := [may "refreshUrl" url, opt "scopes" (dict text)]

end SecurityScan.Specification.Model
