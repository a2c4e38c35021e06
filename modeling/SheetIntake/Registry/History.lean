import SheetIntake.Registry.Store
import SheetIntake.Value.Access

/-!
# Schema histories

For an import name the registry keeps the active schema and the schemas that replaced earlier ones,
the latest at the end. Saving a schema that is alike to the active one changes nothing. Removing
makes the latest schema of the list the active one and takes it off the list.
-/

namespace SheetIntake.Registry

def named (importName : Value) : Document :=
  [("import_name", importName)]

def activeSchema (importName : Value) : Job protocol Value := do
  match ← findFirst (named importName) with
  | some document => return (Assoc.get? "active_schema" document).getD .null
  | none => return .null

/-- A copy of a schema; only objects and lists can be copied. -/
def copied : Value → Except Fault Value
  | .object members => .ok (.object members)
  | .list items => .ok (.list items)
  | v => .error (.noSuchOperation v.kindName "copy")

def firstDocument (importName schema : Value) (now : String) : Document :=
  [("import_name", importName), ("created_at", .str now), ("active_schema", schema),
    ("schemas_releases", .list [])]

/-- Saves a schema for an import name. The answer is null when the schema is alike to the active
one. -/
def saveSchema (schema importName : Value) (now : String) : Job protocol Value := do
  let found ← findFirst (named importName)
  let total ← count []
  match found, decide (total = 0) with
  | some document, false =>
    let active ← Job.ofExcept ((Value.object document).member "active_schema")
    if active.alike schema then return .null
    let copy ← Job.ofExcept (copied schema)
    let result ← update (named importName) {
      set := [("active_schema", copy), ("created_at", .str now)]
      push := [("schemas_releases", .object [("schema", copy)])] }
    return .object (("status", .str "Active Schema Updated") :: result.members)
  | _, _ =>
    let copy ← Job.ofExcept (copied schema)
    insert (firstDocument importName copy now)
    return .object [("status", .str "inserted"), ("acknowledged", .bool true)]

def lastRelease : Value → Except Fault Value
  | .list items =>
    match items.getLast? with
    | some v => .ok v
    | none => .error .outOfRange
  | .str s =>
    match s.toList.getLast? with
    | some c => .ok (.str (String.singleton c))
    | none => .error .outOfRange
  | .object _ => .error (.missing (.int (-1)))
  | _ => .error .wrongKind

/-- Takes back the last schema that was saved for an import name. The answer is null when there is
none. Documents themselves cannot be deleted, so the first schema cannot be taken back. -/
def removeSchema (importName : Value) (now : String) : Job protocol Value := do
  match ← findFirst (named importName) with
  | none => return .null
  | some document =>
    let releases := (Assoc.get? "schemas_releases" document).getD (.list [])
    if !releases.truthy then
      throw (.noSuchOperation "MongoConnection" "delete_one")
    let release ← Job.ofExcept (lastRelease releases)
    let schema ← Job.ofExcept (release.memberOr "schema" (.object []))
    let result ← update (named importName) {
      set := [("active_schema", schema), ("created_at", .str now)]
      pop := ["schemas_releases"] }
    return .object (("status", .str "Active Schema Replaced with Last Release") :: result.members)

end SheetIntake.Registry
