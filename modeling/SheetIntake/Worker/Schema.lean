import SheetIntake.Schema.Batch
import SheetIntake.Worker.Basic

/-!
# The schema worker

It makes schemas out of what was handed in and saves them in the registry, or takes the last schema
of an import name back. What becomes of the registry is part of the result: a fault of the registry
makes the result a bad one and is not a fault of the worker.
-/

namespace SheetIntake.Worker

open SheetIntake.Service

/-- What the registry did: its answer, or how it failed. -/
def attempted (job : Job Registry.protocol Value) : Job protocol (Except Fault Value) :=
  tryCatch (do return .ok (← onRegistry job)) (fun fault => return .error fault)

/-- The answer of the registry, or the text of its fault, as a result shows it. -/
def attemptValue : Except Fault Value → Value
  | .ok v => v
  | .error fault => .str fault.inspect

def attemptStatus (failed : String) : Except Fault Value → String
  | .ok _ => "completed"
  | .error _ => failed

def attemptGood : Except Fault Value → Bool
  | .ok _ => true
  | .error _ => false

/-- Makes a schema; none if what was handed in is not a schema. Any other fault is one of the
worker. -/
def makeSchema (raw : Bool) (message task importName : Value) (now : Moment) :
    Job protocol (Option Value) := do
  let given ← Job.ofExcept (message.member "schema")
  match Schema.create raw given with
  | .ok schema =>
    report schemaEndpoint task (.str "schema-created")
      ("Schema created for import: " ++ importName.text) (updatedAt now [])
    return some schema
  | .error (.invalidSchema reason) =>
    report schemaEndpoint task (.str "failed-creating-schema")
      (Fault.inspect (.invalidSchema reason)) (updatedAt now [])
    return none
  | .error fault => throw fault

def saveMade (schema task importName : Value) (now : Moment) : Job protocol Outcome := do
  report schemaEndpoint task (.str "saving-schema") "" (updatedAt now [])
  let attempt ← attempted (Registry.saveSchema schema importName now.text)
  let result := attemptValue attempt
  let status := attemptStatus "failed-saving-schema" attempt
  let shown := if result.truthy then result.inspect else "Schema is the same, no update needed."
  report schemaEndpoint task (.str status) "Validation completed and uploaded to the database."
    (updatedAt now [("results", .str shown)])
  return { good := attemptGood attempt
           document := .object [("task_id", task), ("status", .str status),
             ("import_name", importName), ("schema", schema), ("result", result)] }

def updateSchema (message task : Value) (now : Moment) : Job protocol Outcome := do
  let importName ← Job.ofExcept (message.member "import_name")
  let raw ← Job.ofExcept (message.memberOr "raw" (.bool false))
  report schemaEndpoint task (.str "creating-schema")
    ("Creating schema for import: " ++ importName.text) (updatedAt now [])
  match ← makeSchema raw.truthy message task importName now with
  | some schema => saveMade schema task importName now
  | none => return {
      good := false
      document := .object [("task_id", task), ("status", .str "failed-creating-schema"),
        ("import_name", importName), ("schema", .null), ("result", .bool false)] }

def takeBackSchema (message task : Value) (now : Moment) : Job protocol Outcome := do
  let importName ← Job.ofExcept (message.member "import_name")
  report schemaEndpoint task (.str "removing-schema")
    ("Removing schema for import: " ++ importName.text) (updatedAt now [])
  let attempt ← attempted (Registry.removeSchema importName now.text)
  let result := attemptValue attempt
  let status := attemptStatus "failed-removing-schema" attempt
  let shown := if result.truthy then result else .str "Active Schema not found."
  report schemaEndpoint task (.str status) "Schema removal completed."
    (updatedAt now [("results", shown)])
  return { good := attemptGood attempt
           document := .object [("task_id", task), ("status", .str status),
             ("import_name", importName), ("result", result)] }

def schemaWork (body : List UInt8) (now : Moment) : Job protocol Unit := do
  let message ← Job.ofExcept (readMessage body)
  let task ← Job.ofExcept (message.member "id")
  let kind ← Job.ofExcept (message.memberOr "task" (.str SchemaTask.upload.name))
  let outcome ←
    if kind = .str SchemaTask.upload.name then do
      reportReceived schemaEndpoint message task "received-schema-update" now
      updateSchema message task now
    else if kind = .str SchemaTask.remove.name then do
      reportReceived schemaEndpoint message task "received-removing-schema" now
      takeBackSchema message task now
    else throw .unbound
  publishResult schemaEndpoint .schemaResults task outcome now

def handleSchema (tag : Nat) (body : List UInt8) (now : Moment) : Job protocol Unit :=
  settling tag (schemaWork body now)

end SheetIntake.Worker
