import SheetIntake.Cache.Task

/-!
# Health

The service tells whether it and the servers behind it are in order. A report that all is well is
kept in the cache for a minute.
-/

namespace SheetIntake.Service

inductive Reach where
  | reached
  | refused
  | timedOut
  /-- The server was reached and does not tell its version. -/
  | unversioned
  deriving DecidableEq, Repr

structure Reaches where
  registry : Reach := .reached
  broker : Reach := .reached
  cache : Reach := .reached
  accounts : Reach := .reached

structure Finding where
  healthy : Bool
  members : List (String × Value)

namespace Finding

def status (healthy : Bool) : Value :=
  .str (if healthy then "healthy" else "unhealthy")

def document (f : Finding) : Value :=
  .object (("status", status f.healthy) :: f.members)

def fine (details : List (String × Value)) : Finding :=
  { healthy := true, members := details ++ [("response_time_ms", .str "< 5000")] }

def late : Finding :=
  { healthy := false
    members := [("error", .str "Connection timeout"), ("response_time_ms", .str "> 5000")] }

def broken (reason : String) : Finding :=
  { healthy := false, members := [("error", .str reason)] }

def ofReach (name : String) (details : Reach → List (String × Value)) (r : Reach) : Finding :=
  match r with
  | .refused => broken (name ++ " refused")
  | .timedOut => late
  | r => fine (details r)

end Finding

def registryVersion : Reach → List (String × Value)
  | .unversioned => [("version", .str "unknown")]
  | _ => [("version", .str "7.0.1")]

def accountsFinding (r : Reaches) : Finding :=
  .ofReach "postgres" (fun _ => []) r.accounts

/-- Writes to the cache, reads it back, and deletes it. -/
def tryCache : Job Cache.protocol Unit := do
  Cache.ping
  Cache.set "healthcheck:test" (.str "test_value") (some 60)
  let _ ← Cache.get "healthcheck:test"
  let _ ← Cache.delete ["healthcheck:test"]

def cacheFinding (r : Reaches) : Job Cache.protocol Finding :=
  match r.cache with
  | .refused => return .broken "redisdb refused"
  | .timedOut => return .late
  | _ => tryCatch (do
      tryCache
      return .fine []) (fun fault => return .broken fault.message)

def running : String × Value :=
  ("message", .str "API is running")

def reportLifetime : Int :=
  60

/-- Makes a report; `uptime` is how many seconds the service has been running. The account database
does not count for the status as a whole. -/
def freshHealth (r : Reaches) (uptime : Nat) : Job Cache.protocol Value := do
  let registry := Finding.ofReach "mongodb" registryVersion r.registry
  let broker := Finding.ofReach "rabbitmq" (fun _ => []) r.broker
  let cache ← cacheFinding r
  let healthy := registry.healthy && broker.healthy && cache.healthy
  let report : Value := .object [
    ("status", .str (if healthy then "healthy" else "degraded")),
    ("timestamp", .float (Binary64.ofRatio false uptime 1)),
    ("services", .object [("api", .object [("status", .str "healthy"), running]),
      ("mongodb", registry.document), ("rabbitmq", broker.document),
      ("redisdb", cache.document), ("postgres", (accountsFinding r).document)])]
  if !healthy then throw (.rejected 503 report)
  Cache.set "healthcheck" (.str (Json.write .line report)) (some reportLifetime)
  return report

/-- The answer when no report can be made that all is well. -/
def unhealthy (fault : Fault) : Fault :=
  .rejected 500 (.object [("status", .str "unhealthy"),
    ("error", .str ("Health check failed: " ++ fault.message)),
    ("services", .object [("api",
      .object [("status", .str "unhealthy"), ("error", .str fault.message)])])])

def keptReport (key : String) : Job Cache.protocol (Option Value) := do
  match ← Cache.get key with
  | none | some "" => return none
  | some text => return some (← Job.ofExcept (Cache.parsed text))

def health (useCache : Bool) (r : Reaches) (uptime : Nat) : Job Cache.protocol Value := do
  match ← if useCache then keptReport "healthcheck" else pure none with
  | some report => return report
  | none => tryCatch (freshHealth r uptime) (fun fault => throw (unhealthy fault))

def simpleHealth : Job Cache.protocol Value := do
  match ← keptReport "healthcheck_simple" with
  | some report => return report
  | none =>
    let report : Value := .object [("status", .str "ok"), running]
    Cache.set "healthcheck_simple" (.str (Json.write .line report)) (some reportLifetime)
    return report

end SheetIntake.Service
