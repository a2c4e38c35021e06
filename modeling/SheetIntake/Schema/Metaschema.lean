import SheetIntake.Schema.Draft

/-!
# Metaschemas

Each draft of the language is described by a schema of its own, its metaschema. A schema is well
formed when it satisfies the metaschema of its draft. The order of members is that in which a schema
is looked at, so it decides which of several findings comes first.
-/

namespace SheetIntake.Schema.Metaschema

def schema (members : List (String × Value)) : Value :=
  .object members

def ref (address : String) : Value :=
  .object [("$ref", .str address)]

def whole : Value :=
  .object [("$dynamicRef", .str "#meta")]

def typed (name : String) : Value :=
  .object [("type", .str name)]

def formatted (format : String) : Value :=
  .object [("type", .str "string"), ("format", .str format)]

def texts (xs : List String) : Value :=
  .list (xs.map .str)

/-- Objects all of whose members satisfy a schema. -/
def mapOf (member : Value) : Value :=
  .object [("type", .str "object"), ("additionalProperties", member), ("default", .object [])]

def simpleTypes : Value :=
  .object [("enum",
    texts ["array", "boolean", "integer", "null", "number", "object", "string"])]

/-- One or several types, where the names of types are described elsewhere. -/
def typeKeyword (address : String) : Value :=
  .object [("anyOf", .list [ref address,
    .object [("type", .str "array"), ("items", ref address), ("minItems", .int 1),
      ("uniqueItems", .bool true)]])]

def positive : Value :=
  .object [("type", .str "number"), ("exclusiveMinimum", .int 0)]

def natural : Value :=
  .object [("type", .str "integer"), ("minimum", .int 0)]

def stringArray : Value :=
  .object [("type", .str "array"), ("items", typed "string"), ("uniqueItems", .bool true),
    ("default", .list [])]

def flag : Value :=
  .object [("type", .str "boolean"), ("default", .bool false)]

/-! ## Draft four -/

def four : Value :=
  let self := ref "#"
  let natural := ref "#/definitions/positiveInteger"
  let natural0 := ref "#/definitions/positiveIntegerDefault0"
  let schemas := ref "#/definitions/schemaArray"
  let strings := ref "#/definitions/stringArray"
  let switch := schema [("anyOf", .list [typed "boolean", self]), ("default", .object [])]
  schema [
    ("id", .str "http://json-schema.org/draft-04/schema#"),
    ("$schema", .str "http://json-schema.org/draft-04/schema#"),
    ("description", .str "Core schema meta-schema"),
    ("definitions", schema [
      ("schemaArray", schema [("type", .str "array"), ("minItems", .int 1), ("items", self)]),
      ("positiveInteger", Metaschema.natural),
      ("positiveIntegerDefault0",
        schema [("allOf", .list [natural, schema [("default", .int 0)]])]),
      ("simpleTypes", simpleTypes),
      ("stringArray", schema [("type", .str "array"), ("items", typed "string"),
        ("minItems", .int 1), ("uniqueItems", .bool true)])]),
    ("type", .str "object"),
    ("properties", schema [
      ("id", typed "string"),
      ("$schema", typed "string"),
      ("title", typed "string"),
      ("description", typed "string"),
      ("default", .object []),
      ("multipleOf", schema [("type", .str "number"), ("minimum", .int 0),
        ("exclusiveMinimum", .bool true)]),
      ("maximum", typed "number"),
      ("exclusiveMaximum", typed "boolean"),
      ("minimum", typed "number"),
      ("exclusiveMinimum", typed "boolean"),
      ("maxLength", natural),
      ("minLength", natural0),
      ("pattern", formatted "regex"),
      ("additionalItems", switch),
      ("items", schema [("anyOf", .list [self, schemas]), ("default", .object [])]),
      ("maxItems", natural),
      ("minItems", natural0),
      ("uniqueItems", flag),
      ("maxProperties", natural),
      ("minProperties", natural0),
      ("required", strings),
      ("additionalProperties", switch),
      ("definitions", mapOf self),
      ("properties", mapOf self),
      ("patternProperties", mapOf self),
      ("dependencies", schema [("type", .str "object"),
        ("additionalProperties", schema [("anyOf", .list [self, strings])])]),
      ("enum", schema [("type", .str "array"), ("minItems", .int 1),
        ("uniqueItems", .bool true)]),
      ("type", typeKeyword "#/definitions/simpleTypes"),
      ("format", typed "string"),
      ("allOf", schemas),
      ("anyOf", schemas),
      ("oneOf", schemas),
      ("not", self)]),
    ("dependencies", schema [("exclusiveMaximum", texts ["maximum"]),
      ("exclusiveMinimum", texts ["minimum"])]),
    ("default", .object [])]

/-! ## Draft seven -/

def seven : Value :=
  let self := ref "#"
  let natural := ref "#/definitions/nonNegativeInteger"
  let natural0 := ref "#/definitions/nonNegativeIntegerDefault0"
  let schemas := ref "#/definitions/schemaArray"
  let strings := ref "#/definitions/stringArray"
  schema [
    ("$schema", .str "http://json-schema.org/draft-07/schema#"),
    ("$id", .str "http://json-schema.org/draft-07/schema#"),
    ("title", .str "Core schema meta-schema"),
    ("definitions", schema [
      ("schemaArray", schema [("type", .str "array"), ("minItems", .int 1), ("items", self)]),
      ("nonNegativeInteger", Metaschema.natural),
      ("nonNegativeIntegerDefault0",
        schema [("allOf", .list [natural, schema [("default", .int 0)]])]),
      ("simpleTypes", simpleTypes),
      ("stringArray", stringArray)]),
    ("type", texts ["object", "boolean"]),
    ("properties", schema [
      ("$id", formatted "uri-reference"),
      ("$schema", formatted "uri"),
      ("$ref", formatted "uri-reference"),
      ("$comment", typed "string"),
      ("title", typed "string"),
      ("description", typed "string"),
      ("default", .bool true),
      ("readOnly", flag),
      ("examples", schema [("type", .str "array"), ("items", .bool true)]),
      ("multipleOf", positive),
      ("maximum", typed "number"),
      ("exclusiveMaximum", typed "number"),
      ("minimum", typed "number"),
      ("exclusiveMinimum", typed "number"),
      ("maxLength", natural),
      ("minLength", natural0),
      ("pattern", formatted "regex"),
      ("additionalItems", self),
      ("items", schema [("anyOf", .list [self, schemas]), ("default", .bool true)]),
      ("maxItems", natural),
      ("minItems", natural0),
      ("uniqueItems", flag),
      ("contains", self),
      ("maxProperties", natural),
      ("minProperties", natural0),
      ("required", strings),
      ("additionalProperties", self),
      ("definitions", mapOf self),
      ("properties", mapOf self),
      ("patternProperties", schema [("type", .str "object"), ("additionalProperties", self),
        ("propertyNames", schema [("format", .str "regex")]), ("default", .object [])]),
      ("dependencies", schema [("type", .str "object"),
        ("additionalProperties", schema [("anyOf", .list [self, strings])])]),
      ("propertyNames", self),
      ("const", .bool true),
      ("enum", schema [("type", .str "array"), ("items", .bool true)]),
      ("type", typeKeyword "#/definitions/simpleTypes"),
      ("format", typed "string"),
      ("contentMediaType", typed "string"),
      ("contentEncoding", typed "string"),
      ("if", self),
      ("then", self),
      ("else", self),
      ("allOf", schemas),
      ("anyOf", schemas),
      ("oneOf", schemas),
      ("not", self)]),
    ("default", .bool true)]

/-! ## The latest draft

Its metaschema is put together from one part for each vocabulary. -/

def partUri (name : String) : String :=
  "https://json-schema.org/draft/2020-12/meta/" ++ name

def part (name : String) (properties : List (String × Value)) (defs : List (String × Value)) :
    Value :=
  schema ([
    ("$schema", .str Draft.latest.uri),
    ("$id", .str (partUri name)),
    ("$dynamicAnchor", .str "meta"),
    ("type", texts ["object", "boolean"]),
    ("properties", schema properties)] ++
    (if defs.isEmpty then [] else [("$defs", schema defs)]))

def core : Value :=
  part "core" [
      ("$id", schema [("$ref", .str "#/$defs/uriReferenceString"), ("pattern", .str "^[^#]*#?$")]),
      ("$schema", ref "#/$defs/uriString"),
      ("$ref", ref "#/$defs/uriReferenceString"),
      ("$anchor", ref "#/$defs/anchorString"),
      ("$dynamicRef", ref "#/$defs/uriReferenceString"),
      ("$dynamicAnchor", ref "#/$defs/anchorString"),
      ("$vocabulary", schema [("type", .str "object"),
        ("propertyNames", ref "#/$defs/uriString"),
        ("additionalProperties", typed "boolean")]),
      ("$comment", typed "string"),
      ("$defs", schema [("type", .str "object"), ("additionalProperties", whole)])]
    [
      ("anchorString", schema [("type", .str "string"),
        ("pattern", .str "^[A-Za-z_][-A-Za-z0-9._]*$")]),
      ("uriString", formatted "uri"),
      ("uriReferenceString", formatted "uri-reference")]

def applicator : Value :=
  let schemas := ref "#/$defs/schemaArray"
  part "applicator" [
      ("prefixItems", schemas),
      ("items", whole),
      ("contains", whole),
      ("additionalProperties", whole),
      ("properties", mapOf whole),
      ("patternProperties", schema [("type", .str "object"), ("additionalProperties", whole),
        ("propertyNames", schema [("format", .str "regex")]), ("default", .object [])]),
      ("dependentSchemas", mapOf whole),
      ("propertyNames", whole),
      ("if", whole),
      ("then", whole),
      ("else", whole),
      ("allOf", schemas),
      ("anyOf", schemas),
      ("oneOf", schemas),
      ("not", whole)]
    [("schemaArray", schema [("type", .str "array"), ("minItems", .int 1), ("items", whole)])]

/-- Keywords for parts that no other keyword looks at. -/
def unevaluated : Value :=
  part "unevaluated" [("unevaluatedItems", whole), ("unevaluatedProperties", whole)] []

def validation : Value :=
  let natural := ref "#/$defs/nonNegativeInteger"
  let natural0 := ref "#/$defs/nonNegativeIntegerDefault0"
  let strings := ref "#/$defs/stringArray"
  part "validation" [
      ("type", typeKeyword "#/$defs/simpleTypes"),
      ("const", .bool true),
      ("enum", schema [("type", .str "array"), ("items", .bool true)]),
      ("multipleOf", positive),
      ("maximum", typed "number"),
      ("exclusiveMaximum", typed "number"),
      ("minimum", typed "number"),
      ("exclusiveMinimum", typed "number"),
      ("maxLength", natural),
      ("minLength", natural0),
      ("pattern", formatted "regex"),
      ("maxItems", natural),
      ("minItems", natural0),
      ("uniqueItems", flag),
      ("maxContains", natural),
      ("minContains", schema [("$ref", .str "#/$defs/nonNegativeInteger"), ("default", .int 1)]),
      ("maxProperties", natural),
      ("minProperties", natural0),
      ("required", strings),
      ("dependentRequired", schema [("type", .str "object"),
        ("additionalProperties", strings)])]
    [
      ("nonNegativeInteger", Metaschema.natural),
      ("nonNegativeIntegerDefault0",
        schema [("$ref", .str "#/$defs/nonNegativeInteger"), ("default", .int 0)]),
      ("simpleTypes", simpleTypes),
      ("stringArray", stringArray)]

/-- Keywords that only describe. -/
def metaData : Value :=
  part "meta-data" [
      ("title", typed "string"),
      ("description", typed "string"),
      ("default", .bool true),
      ("deprecated", flag),
      ("readOnly", flag),
      ("writeOnly", flag),
      ("examples", schema [("type", .str "array"), ("items", .bool true)])] []

def formatAnnotation : Value :=
  part "format-annotation" [("format", typed "string")] []

def content : Value :=
  part "content" [
      ("contentEncoding", typed "string"),
      ("contentMediaType", typed "string"),
      ("contentSchema", whole)] []

def latest : Value :=
  schema [
    ("$schema", .str Draft.latest.uri),
    ("$id", .str Draft.latest.uri),
    ("$dynamicAnchor", .str "meta"),
    ("title", .str "Core and Validation specifications meta-schema"),
    ("allOf", .list [ref "meta/core", ref "meta/applicator", ref "meta/unevaluated",
      ref "meta/validation", ref "meta/meta-data", ref "meta/format-annotation",
      ref "meta/content"]),
    ("type", texts ["object", "boolean"]),
    ("properties", schema [
      ("definitions", mapOf whole),
      ("dependencies", schema [("type", .str "object"),
        ("additionalProperties", schema [("anyOf", .list [whole,
          ref "meta/validation#/$defs/stringArray"])]),
        ("default", .object [])]),
      ("$recursiveAnchor", ref "meta/core#/$defs/anchorString"),
      ("$recursiveRef", ref "meta/core#/$defs/uriReferenceString")])]

def ofDraft : Draft → Value
  | .four => four
  | .seven => seven
  | .latest => latest

def documents : List (String × Value) :=
  [(Draft.four.uri, four), (Draft.seven.uri, seven), (Draft.latest.uri, latest),
    (partUri "core", core), (partUri "applicator", applicator),
    (partUri "unevaluated", unevaluated), (partUri "validation", validation),
    (partUri "meta-data", metaData), (partUri "format-annotation", formatAnnotation),
    (partUri "content", content)]

end SheetIntake.Schema.Metaschema
