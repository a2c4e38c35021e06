import SheetIntake.Service.Submission

/-!
# Workers

A worker takes a message, does what it asks for, tells in the record of the task how it is getting
on, and publishes the result. At the end it settles the delivery: a message whose work ends with a
fault is refused and not delivered again.
-/

namespace SheetIntake.Worker

open SheetIntake.Service

def readMessage (body : List UInt8) : Except Fault Value :=
  match Text.decodeUtf8 body with
  | .ok text => Cache.parsed text
  | .error fault => .error (.undecodable fault)

/-- Does the work of a delivery and settles it. -/
def settling (tag : Nat) (work : Job protocol Unit) : Job protocol Unit :=
  tryCatch (do
    work
    onBroker (Broker.settle (.accepted tag)))
    (fun _ => onBroker (Broker.settle (.refused tag false)))

def updatedAt (now : Moment) (before : List (String × Value)) : Value :=
  .object (before ++ [("update_date", .str now.text)])

/-- Tells the status of a task, with a message unless it is empty, and data. -/
def report (endpoint : String) (task : Value) (status : Value) (message : String) (data : Value) :
    Job protocol Unit :=
  onCache (Cache.updateTask task endpoint { value := status, message := .str message, data })

def reportReceived (endpoint : String) (message task : Value) (status : String) (now : Moment) :
    Job protocol Unit := do
  let date ← Job.ofExcept (message.member "date")
  report endpoint task (.str status) "" (updatedAt now [("upload_date", date)])

structure Outcome where
  good : Bool
  document : Value

/-- The moment of the upload in the record of a task, else the present one. -/
def uploadDate (endpoint : String) (task : Value) (now : Moment) : Job protocol Value := do
  match ← onCache (Cache.getTask task.text endpoint) with
  | none => throw (.noSuchOperation "NoneType" "data")
  | some record =>
    match record.data with
    | .object members => return (Assoc.get? "upload_date" members).getD (.str now.text)
    | other => throw (.noSuchOperation other.kindName "get")

def unpublished : String :=
  "Failed to publish validation result"

/-- Publishes a good result. Of any other one only the record of the task tells. -/
def publishResult (endpoint : String) (queue : Broker.Queue) (task : Value) (outcome : Outcome)
    (now : Moment) : Job protocol Unit := do
  if outcome.good then
    onBroker (Broker.publish (messageFor queue outcome.document none))
    report endpoint task (.str "published") "Validation result published" (updatedAt now [])
  else
    let date ← uploadDate endpoint task now
    onCache (Cache.updateTask task endpoint {
      value := .str "failed-publishing-result"
      message := .str unpublished
      data := .object [("error", .str unpublished), ("update_date", .str now.text),
        ("upload_date", date)]
      resetData := true })

end SheetIntake.Worker
