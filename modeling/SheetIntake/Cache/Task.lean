import SheetIntake.Cache.Store
import SheetIntake.Json.Reader
import SheetIntake.Json.Writer
import SheetIntake.Value.Access
import SheetIntake.Value.Form

/-!
# Task records

A task record tells how a request is getting on: a status, a code, a message, and data. The cache
keeps a record as fields under the key of its task, and the names of the tasks of an import name in
a set.

* `setTask` keeps a record, `getTask` reads it back.
* `updateTask` sets one field, and perhaps the message and some of the data.
* `tasksOf` reads the records of an import name.
-/

namespace SheetIntake

/-- How a request is getting on. The data are an object or null. -/
structure TaskRecord where
  status : String
  code : Int
  message : String
  data : Value
  deriving DecidableEq

namespace TaskRecord

def document (r : TaskRecord) : Value :=
  .object [("status", .str r.status), ("code", .int r.code), ("message", .str r.message),
    ("data", r.data)]

def pairs? : List Value → Option (List (String × Value))
  | [] => some []
  | .list [.str k, v] :: rest => (pairs? rest).map ((k, v) :: ·)
  | _ :: _ => none

/-- The data of a field: an object, null, or a list of pairs. -/
def dataOf? : Value → Option Value
  | .object members => some (.object members)
  | .null => some .null
  | .str "" => some (.object [])
  | .list items => (pairs? items).map (fun ps => .object (Assoc.merge [] ps))
  | _ => none

/-- The record of members; others than those of a record are passed over. -/
def ofMembers (members : List (String × Value)) : Except Fault TaskRecord :=
  let data := match Assoc.get? "data" members with
    | none => Except.ok Value.null
    | some _ => Form.required members "data" dataOf?
  Form.result (.ok TaskRecord.mk
    |> Form.fill (Form.required members "status" Form.text?)
    |> Form.fill (Form.required members "code" Form.integer?)
    |> Form.fill (Form.required members "message" Form.text?)
    |> Form.fill data)

end TaskRecord

namespace Cache

def taskKey (endpoint task : String) : String :=
  endpoint ++ ":task:" ++ task

def importKey (endpoint importName : String) : String :=
  endpoint ++ ":import:" ++ importName ++ ":tasks"

def parsed (text : String) : Except Fault Value :=
  match Json.read text with
  | .ok v => .ok v
  | .error reason => .error (.malformedJson reason)

/-- The members of a record whose data are still a text. -/
def recordMembers (fields : List (String × String)) : Except Fault (List (String × Value)) := do
  let data ← match Assoc.get? "data" fields with
    | some text => parsed text
    | none => pure (.object [])
  return Assoc.put "data" data (fields.map (fun f => (f.1, Value.str f.2)))

/-- The record of a task; none where there is none or its fields are not those of a record. -/
def getTask (task endpoint : String) : Job protocol (Option TaskRecord) := do
  let fields ← fields (taskKey endpoint task)
  let members ← Job.ofExcept (recordMembers fields)
  match TaskRecord.ofMembers members with
  | .ok record => return some record
  | .error _ => return none

/-- The records of an import name. Tasks without fields are left out. -/
def tasksOf (importName endpoint : String) : Job protocol (List TaskRecord) := do
  let tasks ← members (importKey endpoint importName)
  let records ← tasks.mapM (fun task => do
    let fields ← fields (taskKey endpoint task)
    if fields.isEmpty then return none
    let members ← Job.ofExcept (recordMembers fields)
    let record ← Job.ofExcept (TaskRecord.ofMembers members)
    return some record)
  return records.filterMap id

/-- Keeps the record of a task, and the task under the import name that its data give. -/
def setTask (task : Value) (record : TaskRecord) (endpoint : String) : Job protocol Unit := do
  let importName ← Job.ofExcept (record.data.memberOr "import_name" (.str "default"))
  setFields (taskKey endpoint task.text) [("status", .str record.status),
    ("code", .int record.code), ("message", .str record.message),
    ("data", .str (Json.write .line record.data))]
  addMember (importKey endpoint importName.text) task

structure TaskUpdate where
  field : String := "status"
  value : Value
  /-- A message that replaces the present one, unless it is empty. -/
  message : Value := .str ""
  /-- Data that are put into the present ones, unless they are empty. -/
  data : Value := .null
  /-- Whether the present data are given up. -/
  resetData : Bool := false

/-- The members of data that are put into others. -/
def dataMembers : Value → Except Fault (List (String × Value))
  | .object members => .ok members
  | _ => .error .wrongKind

/-- Changes the record of a task. The fields are set one after the other. -/
def updateTask (task : Value) (endpoint : String) (u : TaskUpdate) : Job protocol Unit := do
  let key := taskKey endpoint task.text
  let value := match u.value with
    | .object members => Value.str (Json.write .line (.object members))
    | v => v
  setFields key [(u.field, value)]
  if u.message.truthy then
    setFields key [("message", u.message)]
  if u.data.truthy then
    let present ← if u.resetData then pure (.object []) else do
      match ← getTask task.text endpoint with
      | some record => pure record.data
      | none => throw (.noSuchOperation "NoneType" "data")
    let present ← Job.ofExcept (dataMembers present)
    let added ← Job.ofExcept (dataMembers u.data)
    setFields key [("data", .str (Json.write .line (.object (Assoc.merge present added))))]

end Cache

end SheetIntake
