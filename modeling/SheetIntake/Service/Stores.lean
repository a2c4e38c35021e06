import SheetIntake.Broker.Layout
import SheetIntake.Cache.Task
import SheetIntake.Registry.History

/-!
# The servers behind the service

The routes and the workers use the cache, the registry and the broker, and name tasks. The protocol
of all of them is the sum of theirs, so that the steps of routes and workers can alternate in any
order.
-/

namespace SheetIntake.Service

inductive Request where
  | cache (request : Cache.Request)
  | registry (request : Registry.Request)
  | broker (request : Broker.Request)
  /-- Asks for a name that no task has. -/
  | newTask

def Request.Answer : Request → Type
  | .cache request => request.Answer
  | .registry request => request.Answer
  | .broker _ => Unit
  | .newTask => String

abbrev protocol : Protocol :=
  { Request := Request, Answer := Request.Answer }

def cachePart : Protocol.Part Cache.protocol protocol :=
  { request := .cache, answer := fun _ a => a }

def registryPart : Protocol.Part Registry.protocol protocol :=
  { request := .registry, answer := fun _ a => a }

def brokerPart : Protocol.Part Broker.protocol protocol :=
  { request := .broker, answer := fun _ a => a }

variable {α : Type}

def onCache (job : Job Cache.protocol α) : Job protocol α :=
  job.within cachePart

def onRegistry (job : Job Registry.protocol α) : Job protocol α :=
  job.within registryPart

def onBroker (job : Job Broker.protocol α) : Job protocol α :=
  job.within brokerPart

def newTask : Job protocol String :=
  Job.ask (p := protocol) .newTask

structure Stores where
  cache : Cache.Store := {}
  registry : Registry.Store := {}
  broker : Broker.Store := {}
  /-- How many tasks were named so far. -/
  taskCount : Nat := 0

def taskName (n : Nat) : String :=
  "task-" ++ toString n

def servers : Servers protocol Stores
  | .cache request, s =>
    let (answer, cache) := Cache.servers request s.cache
    (answer, { s with cache })
  | .registry request, s =>
    let (answer, registry) := Registry.servers request s.registry
    (answer, { s with registry })
  | .broker request, s =>
    let (answer, broker) := Broker.servers request s.broker
    (answer, { s with broker })
  | .newTask, s =>
    (.ok (taskName (s.taskCount + 1)), { s with taskCount := s.taskCount + 1 })

end SheetIntake.Service
