import SheetIntake.Decimal.Reader
import SheetIntake.Fault
import SheetIntake.Text.Search

/-!
# The contract of the formula service

One remote method takes a formula and answers with its tree. The modules that describe the messages
and the method work with a runtime of a certain version or later.
-/

namespace SheetIntake.FormulaService

def serviceName : String :=
  "formula_parser.FormulaParser"

def methodName : String :=
  "ParseFormula"

def methodPath : String :=
  "/" ++ serviceName ++ "/" ++ methodName

structure CallOptions where
  options : Value := .list []
  channelCredentials : Value := .null
  callCredentials : Value := .null
  insecure : Value := .bool false
  compression : Value := .null
  waitForReady : Value := .null
  timeout : Value := .null
  metadata : Value := .null

namespace CallOptions

def set (o : CallOptions) (name : String) (v : Value) : Except Fault CallOptions :=
  match name with
  | "options" => .ok { o with options := v }
  | "channel_credentials" => .ok { o with channelCredentials := v }
  | "call_credentials" => .ok { o with callCredentials := v }
  | "insecure" => .ok { o with insecure := v }
  | "compression" => .ok { o with compression := v }
  | "wait_for_ready" => .ok { o with waitForReady := v }
  | "timeout" => .ok { o with timeout := v }
  | "metadata" => .ok { o with metadata := v }
  | _ => .error .wrongKind

def ofMembers (members : List (String × Value)) : Except Fault CallOptions :=
  members.foldlM (fun o m => o.set m.1 m.2) {}

end CallOptions

/-- What reaches the transport when the method is called once. -/
def transportCall (request target : Value) (o : CallOptions) : List Value :=
  [request, target, .str methodPath, o.options, o.channelCredentials, o.insecure,
    o.callCredentials, o.compression, o.waitForReady, o.timeout, o.metadata, .bool true]

/-- How a server without an implementation settles a call: a status, its details, and the fault that
the call ends with. -/
def unimplemented : String × String × Fault :=
  ("UNIMPLEMENTED", Fault.notImplemented.message, .notImplemented)

def leastVersion : String :=
  "1.73.1"

def versionParts (version : String) : Except Fault (List Int) :=
  (Text.splitOn version '.').mapM (fun part =>
    match Decimal.readInt? part with
    | some n => .ok n
    | none => .error (.notAnInteger part))

def precedes : List Int → List Int → Bool
  | [], [] => false
  | [], _ :: _ => true
  | _ :: _, [] => false
  | a :: as, b :: bs => if a = b then precedes as bs else a < b

/-- Why a module cannot be used with a runtime that is too old. -/
def outdatedReason (part version : String) : String :=
  "The grpc package installed is at version " ++ version ++ ", but the generated code in " ++
    part ++ "_pb2_grpc.py depends on grpcio>=" ++ leastVersion ++
    ". Please upgrade your grpc module to grpcio>=" ++ leastVersion ++
    " or downgrade your generated code using grpcio-tools<=" ++ version ++ "."

/-- Checks the version of the runtime before a module is used. A runtime that cannot compare
versions is too old. -/
def checkVersion (part version : String) (comparesVersions : Bool) : Except Fault Unit := do
  let tooOld ←
    if comparesVersions then do
      let parts ← versionParts version
      let least ← versionParts leastVersion
      pure (precedes parts least)
    else pure true
  if tooOld then throw (.outdatedRuntime (outdatedReason part version))

structure Address where
  host : String := "localhost"
  port : String := "50052"

namespace Address

def channel (a : Address) : String :=
  a.host ++ ":" ++ a.port

/-- A variable of the environment; an empty one counts as unset. -/
def setting? (env : List (String × String)) (name : String) : Option String :=
  match Assoc.get? name env with
  | some "" => none
  | found => found

def ofEnvironment (env : List (String × String)) : Address :=
  { host := (setting? env "FORMULA_PARSER_HOST").getD "localhost"
    port := (setting? env "FORMULA_PARSER_PORT").getD "50052" }

def printed (a : Address) : String :=
  (Value.object [("FORMULA_PARSER_HOST", .str a.host), ("FORMULA_PARSER_PORT", .str a.port),
    ("FORMULA_PARSER_CHANNEL", .str a.channel)]).inspect ++ "\n"

end Address

end SheetIntake.FormulaService
