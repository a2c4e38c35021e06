import SheetIntake.Schema.Keyword

/-!
# Validation

A schema is true, false, or an object of keywords, which are looked at in the order of the object. A
value satisfies a schema when nothing is found.

* `findingsBy` looks for all reasons why a value does not satisfy a schema, where it is given how
  schemas inside it are applied.
* `findings` applies them in the same way. References may lead back to a schema that is being looked
  at, so the depth of the search is bounded.
* `checkSchema` asks whether a schema is well formed, and gives the first finding if it is not.
* `validate` reports the best finding about a value.
-/

namespace SheetIntake.Schema

/-- How deep schemas may be nested, references included. -/
def depthLimit : Nat :=
  1000

def applicable (draft : Draft) (members : List (String × Value)) : List (String × Value) :=
  if draft.ignoresBesideReference then
    match Assoc.get? "$ref" members with
    | none => members
    | some .null => members
    | some v => [("$ref", v)]
  else members

/-- What a schema works with: its keywords, the value, and how schemas inside it are applied. -/
def checkIn (apply : Scope → Value → Value → Findings) (formats : Bool) (scope : Scope)
    (members : List (String × Value)) (value : Value) : Check :=
  { draft := scope.draft
    members
    value
    formats
    apply := apply scope
    applyReference := fun reference value =>
      match resolve scope reference with
      | .ok (scope, schema) => apply scope schema value
      | .error fault => .failed fault }

/-- What is found about a value under a schema, given how schemas are applied inside it. -/
def findingsBy (apply : Scope → Value → Value → Findings) (formats : Bool) (scope : Scope)
    (schema value : Value) : Findings :=
  match schema with
  | .bool true => .clean
  | .bool false =>
    .one (.mk ("False schema does not allow " ++ value.inspect) [] "" false [])
  | .object members =>
    let scope := scope.within schema
    let check := checkIn apply formats scope members value
    Findings.each (fun m => check.keyword m.1 m.2) (applicable scope.draft members)
  | .str s => .failed (.noSuchOperation (Value.str s).kindName
      (if scope.draft.ignoresBesideReference then "get" else "items"))
  | .list items => .failed (.noSuchOperation (Value.list items).kindName
      (if scope.draft.ignoresBesideReference then "get" else "items"))
  | other => .failed (.notAContainer other.kindName)

def findings (formats : Bool) : Nat → Scope → Value → Value → Findings
  | 0, _, _, _ => .failed .endlessRecursion
  | depth + 1, scope, schema, value =>
    findingsBy (findings formats depth) formats scope schema value

/-- Whether a schema satisfies the metaschema of a draft; otherwise the first finding is told. -/
def checkSchema (draft : Draft) (schema : Value) : Except Fault Unit :=
  let metaschema := Metaschema.ofDraft draft
  let fs := findings true depthLimit (Scope.start draft metaschema) metaschema schema
  match fs.found, fs.fault with
  | f :: _, _ => .error (.invalidSchema f.message)
  | [], some fault => .error fault
  | [], none => .ok ()

def draftOf (schema : Value) : Except Fault Draft :=
  match schema with
  | .null | .int _ | .float _ => .error (.notAContainer schema.kindName)
  | schema => .ok (Draft.ofSchema .latest schema)

/-- Makes sure that a schema is well formed, and gives its draft. -/
def admitted (schema : Value) : Except Fault Draft := do
  let draft ← draftOf schema
  checkSchema draft schema
  return draft

/-- Why a value does not satisfy a well formed schema: the best finding, if there is any. -/
def validateAdmitted (draft : Draft) (schema value : Value) : Except Fault (Option String) := do
  let found ← (findings false depthLimit (Scope.start draft schema) schema value).complete
  return (best? found).map Finding.message

def validate (schema value : Value) : Except Fault (Option String) := do
  let draft ← admitted schema
  validateAdmitted draft schema value

/-- A schema as it is stored. A raw schema has to be well formed; any other document lists the
members of a record, all of which are required and no others allowed. -/
def create (raw : Bool) (document : Value) : Except Fault Value :=
  if raw then do
    checkSchema .seven document
    return document
  else
    match document with
    | .object members =>
      .ok (.object [("type", .str "object"), ("properties", document),
        ("required", .list (members.map (fun m => .str m.1))),
        ("additionalProperties", .bool false)])
    | v => .error (.noSuchOperation v.kindName "keys")

end SheetIntake.Schema
