import SheetIntake.Schema.Summary
import SheetIntake.Upload.Report
import SheetIntake.Worker.Basic

/-!
# The file worker

It checks the rows of a file under the active schema of an import name and publishes the summary,
unless there is nothing to summarize.
-/

namespace SheetIntake.Worker

open SheetIntake.Service

def fileBytes (v : Value) : Except Fault (List UInt8) := do
  match Text.ofHex? (← v.expectText) with
  | some bytes => return bytes
  | none => throw .wrongKind

def fileOf (message : Value) : Except Fault Upload := do
  let bytes ← fileBytes (← message.member "file_data")
  let name ← (← message.member "metadata").member "filename"
  return { name, contentType := .null, size := .null, content := .ok (.bytes bytes) }

def reportFile (file : Upload) (importName : Value) (workers limit : Int) (now : String) :
    Job Registry.protocol FileReport := do
  let schema ← Registry.activeSchema importName
  Job.ofExcept (file.validate schema importName workers limit now)

def summarize (file : Upload) (importName : Value) (workers : Nat) (now : Moment) :
    Job Registry.protocol Value := do
  let report ← reportFile file importName workers workers now.text
  Job.ofExcept (Schema.summary report.document)

def checkFile (message task : Value) (workers : Nat) (now : Moment) : Job protocol Outcome := do
  report fileEndpoint task (.str "processing-file") "" (updatedAt now [])
  let file ← Job.ofExcept (fileOf message)
  report fileEndpoint task (.str "validating-file") "" (updatedAt now [])
  let importName ← Job.ofExcept (message.member "import_name")
  let summary ← onRegistry (summarize file importName workers now)
  let status ← Job.ofExcept (summary.member "status")
  report fileEndpoint task status "" (updatedAt now [("results", summary)])
  return { good := status ≠ .str "error"
           document := .object [("task_id", task), ("status", status), ("results", summary)] }

def fileWork (body : List UInt8) (workers : Nat) (now : Moment) : Job protocol Unit := do
  let message ← Job.ofExcept (readMessage body)
  let task ← Job.ofExcept (message.member "id")
  let kind ← Job.ofExcept (message.memberOr "task" (.str fileTaskName))
  if kind ≠ .str fileTaskName then throw .unbound
  reportReceived fileEndpoint message task "received-sample-validation" now
  let outcome ← checkFile message task workers now
  publishResult fileEndpoint .validationResults task outcome now

def handleFile (tag : Nat) (body : List UInt8) (workers : Nat) (now : Moment) : Job protocol Unit :=
  settling tag (fileWork body workers now)

end SheetIntake.Worker
