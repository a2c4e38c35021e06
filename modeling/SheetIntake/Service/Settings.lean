import SheetIntake.Fault
import SheetIntake.Text.Blank
import SheetIntake.Text.Search

/-!
# Settings

What the service is configured with, and the addresses of the servers that it uses.
-/

namespace SheetIntake

structure Settings where
  apiPath : String := "/api/v1"
  origins : List String := ["http://localhost"]
  secretKey : String := "secret"
  tokenMinutes : Nat := 60
  firstAdmin : String := "root"
  firstAdminPassword : String := "rootpw"
  brokerHost : String := "localhost"
  brokerPort : Nat := 5672
  brokerPath : String := "/"
  brokerUser : String := "guest"
  brokerPassword : String := "guest"
  workers : Nat := 4
  prefetch : Nat := 1
  registryHost : String := "localhost"
  registryPort : Nat := 27017
  registryUser : Option String := none
  registryPassword : Option String := none
  cacheHost : String := "localhost"
  cachePort : Nat := 6379
  cachePassword : String := "x"
  cacheSeconds : Nat := 300
  databaseHost : String := "localhost"
  databasePort : Nat := 5432
  databaseUser : String := "u"
  databasePassword : String := "p"
  databaseName : String := "d"

namespace Settings

def brokerUri (s : Settings) : List (String × Value) :=
  [("scheme", .str "amqp"), ("username", .str s.brokerUser), ("password", .str s.brokerPassword),
    ("host", .str s.brokerHost), ("port", .int s.brokerPort), ("path", .str s.brokerPath)]

def registryUri (s : Settings) : List (String × Value) :=
  [("scheme", .str "mongodb"), ("username", .ofText? s.registryUser),
    ("password", .ofText? s.registryPassword), ("host", .str s.registryHost),
    ("port", .int s.registryPort)]

def cacheUri (s : Settings) : List (String × Value) :=
  [("scheme", .str "redis"), ("password", .str s.cachePassword), ("host", .str s.cacheHost),
    ("port", .int s.cachePort)]

def databaseUri (s : Settings) : List (String × Value) :=
  [("scheme", .str "postgresql+psycopg"), ("username", .str s.databaseUser),
    ("password", .str s.databasePassword), ("host", .str s.databaseHost),
    ("port", .int s.databasePort), ("path", .str s.databaseName)]

def uri? (s : Settings) : String → Option (List (String × Value))
  | "RABBITMQ_URI" => some s.brokerUri
  | "MONGO_URI" => some s.registryUri
  | "REDIS_URI" => some s.cacheUri
  | "POSTGRES_URI" => some s.databaseUri
  | _ => none

end Settings

/-- A setting that is a list. A text that does not begin with a bracket is split at commas; other
texts and lists are taken as they are. -/
def splitSetting : Value → Except Fault Value
  | .str s =>
    if Text.startsWith s "[" then .ok (.str s)
    else .ok (.list ((Text.splitOn s ',').map (fun part => .str (Text.strip part))))
  | .list items => .ok (.list items)
  | v => .error (.notAList v)

end SheetIntake
