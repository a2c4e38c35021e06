import SheetIntake.Moment
import SheetIntake.Service.Stores

/-!
# Submitted tasks

A task is submitted by publishing a message. The routes answer with the record of the task, which is
kept in the cache, before a worker takes the message.

* `uploadSchema`, `removeSchema` and `uploadFile` submit tasks. An upload answers with the records of
  the tasks of the import name where there are some and no new task is asked for.
* `schemaStatus` and `fileStatus` tell how tasks are getting on.
-/

namespace SheetIntake.Service

def schemaEndpoint : String :=
  "schemas"

def fileEndpoint : String :=
  "validation"

inductive SchemaTask where
  | upload
  | remove
  deriving DecidableEq, Repr

def SchemaTask.name : SchemaTask → String
  | .upload => "upload_schema"
  | .remove => "remove_schema"

def fileTaskName : String :=
  "sample_validation"

def filePriority : Int :=
  5

def schemaMessage (id : String) (task : SchemaTask) (schema : Value) (importName : String)
    (raw : Bool) (now : Moment) : Value :=
  .object [("id", .str id), ("timestamp", .str now.text), ("schema", schema),
    ("import_name", .str importName), ("raw", .bool raw), ("task", .str task.name),
    ("date", .str now.text)]

structure FileSubmission where
  filename : Value
  contentType : Value := .null
  content : List UInt8

def fileMessage (id : String) (file : FileSubmission) (importName : String) (now : Moment) :
    Value :=
  .object [("id", .str id), ("task", .str fileTaskName), ("timestamp", .str now.text),
    ("file_data", .str (Text.toHex file.content)), ("import_name", .str importName),
    ("metadata", .object [("filename", file.filename), ("content_type", file.contentType),
      ("size", .int file.content.length)]),
    ("priority", .int filePriority), ("date", .str now.text)]

def messageFor (queue : Broker.Queue) (body : Value) (properties : Option Broker.Properties) :
    Broker.Message :=
  { exchange := Broker.exchangeName, key := queue.key, body := Json.write .line body, properties }

def publishSchema (task : SchemaTask) (schema : Value) (importName : String) (raw : Bool)
    (now : Moment) : Job protocol String := do
  let id ← newTask
  onBroker (Broker.publish (messageFor .schema (schemaMessage id task schema importName raw now)
    (some { messageId := id, timestamp := now.seconds })))
  return id

def publishFile (file : FileSubmission) (importName : String) (now : Moment) :
    Job protocol String := do
  let id ← newTask
  onBroker (Broker.publish (messageFor .validation (fileMessage id file importName now)
    (some { messageId := id, timestamp := now.seconds, priority := some filePriority })))
  return id

inductive TaskAnswer where
  | one (record : TaskRecord)
  | all (records : List TaskRecord)
  | nothing

def TaskAnswer.document : TaskAnswer → Value
  | .one record => record.document
  | .all records => .list (records.map TaskRecord.document)
  | .nothing => .null

def expectImportName (importName : String) : Job protocol Unit :=
  if importName = "" then throw (.rejected 400 (.str "import_name must be provided."))
  else pure ()

def submittedData (task : Value) (importName : String) : Value :=
  .object [("task_id", task), ("import_name", .str importName)]

def acceptedRecord (id importName message : String) : TaskRecord :=
  { status := "accepted", code := 202, message, data := submittedData (.str id) importName }

structure SchemaSubmission where
  importName : String
  schema : Value
  raw : Bool := false
  /-- Whether a new task is asked for even if there are some already. -/
  new : Bool := false

/-- The name of a new task with its record. A task that cannot be published has no name, and its
record tells why. -/
def submitSchema (s : SchemaSubmission) (now : Moment) : Job protocol (Value × TaskRecord) :=
  tryCatch (do
    let id ← publishSchema .upload s.schema s.importName s.raw now
    return (.str id, acceptedRecord id s.importName "Schema upload request submitted successfully"))
    (fun fault => return (.null,
      { status := "error", code := 500, message := "Failed to upload schema: " ++ fault.message
        data := submittedData .null s.importName }))

def uploadSchema (s : SchemaSubmission) (now : Moment) : Job protocol TaskAnswer := do
  expectImportName s.importName
  let known ← if s.new then pure [] else onCache (Cache.tasksOf s.importName schemaEndpoint)
  if !known.isEmpty then return .all known
  let (task, record) ← submitSchema s now
  onCache (Cache.setTask task record schemaEndpoint)
  return .one record

/-- The name of a new task. There is no record of a task that cannot be published. -/
def published (job : Job protocol String) : Job protocol String :=
  tryCatch job (fun _ => throw .unbound)

def removeSchema (importName : String) (now : Moment) : Job protocol TaskAnswer := do
  expectImportName importName
  let id ← published (publishSchema .remove .null importName false now)
  let record := acceptedRecord id importName "Schema removal request submitted successfully"
  onCache (Cache.setTask (.str id) record schemaEndpoint)
  return .one record

def uploadFile (file : FileSubmission) (importName : String) (new : Bool) (now : Moment) :
    Job protocol TaskAnswer := do
  expectImportName importName
  let known ← if new then pure [] else onCache (Cache.tasksOf importName fileEndpoint)
  if !known.isEmpty then return .all known
  let id ← published (publishFile file importName now)
  let record := acceptedRecord id importName "Validation request submitted successfully"
  onCache (Cache.setTask (.str id) record fileEndpoint)
  return .one record

/-- The records of an import name, or else that of a task. -/
def statusOf (endpoint task importName : String) : Job protocol TaskAnswer := do
  if importName ≠ "" then return .all (← onCache (Cache.tasksOf importName endpoint))
  match ← onCache (Cache.getTask task endpoint) with
  | some record => return .one record
  | none => return .nothing

def schemaStatus (task importName : String) : Job protocol TaskAnswer := do
  if task = "" ∧ importName = "" then
    throw (.rejected 400 (.str "Either task_id or import_name must be provided."))
  match ← statusOf schemaEndpoint task importName with
  | .nothing => throw (.rejected 404 (.str ("Task with ID " ++ task ++ " not found.")))
  | answer => return answer

/-- How file tasks are getting on. A task without a record is answered with nothing. -/
def fileStatus (task importName : String) : Job protocol TaskAnswer := do
  if task = "" ∧ importName = "" then
    throw (.rejected 400 (.str "Either `task_id` or `import_name` must be provided."))
  statusOf fileEndpoint task importName

end SheetIntake.Service
