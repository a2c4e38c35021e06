import SheetIntake.Service.AccountRoutes
import SheetIntake.Service.Health
import SheetIntake.Service.Startup
import SheetIntake.Worker.Consumer
import SheetIntake.Worker.File
import SheetIntake.Worker.Schema

/-!
# The service as a whole

A `World` is the state of the service and of all servers that it uses. Requests, deliveries and the
life of the workers are steps from one world to the next.
-/

namespace SheetIntake.Service

open SheetIntake.Worker

structure World where
  stores : Stores := {}
  accounts : Accounts.Database := {}
  pool : Broker.Pool := {}
  accepting : Bool := true
  reaches : Reaches := {}
  manager : Manager := {}
  threadCount : Nat := 1

/-- The thread in which the service itself runs. -/
def mainThread : Broker.Thread :=
  0

namespace World

variable {α : Type}

def serve (job : Job protocol α) (w : World) : Except Fault α × World :=
  let (result, stores) := job.run servers w.stores
  (result, { w with stores })

def serveCache (job : Job Cache.protocol α) (w : World) : Except Fault α × World :=
  w.serve (Service.onCache job)

def serveOffice (action : Office.Action α) (w : World) : Except Fault α × World :=
  let (result, office) := action.run.run { cache := w.stores.cache, accounts := w.accounts }
  (result, { w with stores := { w.stores with cache := office.cache }, accounts := office.accounts })

/-- Does something with the broker, and tells which calls were made on channels. -/
def serveMessaging (step : StateM Messaging α) (w : World) : α × List ChannelCall × World :=
  let (a, m) := step.run { broker := w.stores.broker, pool := w.pool, accepting := w.accepting }
  (a, m.calls, { w with stores := { w.stores with broker := m.broker }, pool := m.pool })

/-- Runs the consumers of a manager, each in its thread, until they wait for messages. -/
def runManager (s : Settings) (m : Manager) (fileThread schemaThread : Broker.Thread) (w : World) :
    Manager × List ChannelCall × World :=
  w.serveMessaging (m.start fileThread schemaThread s.prefetch)

def runNewManager (s : Settings) (w : World) : Manager × List ChannelCall × World :=
  let threads := w.threadCount
  { w with threadCount := threads + 2 }.runManager s {} threads (threads + 1)

/-- The world when the service has started: both workers wait for messages. -/
def started (s : Settings) : World :=
  let (manager, _, w) := ({} : World).runManager s {} mainThread mainThread
  { w with manager }

inductive WorkerName where
  | schemas
  | files
  deriving DecidableEq, Repr

def WorkerName.queue : WorkerName → Broker.Queue
  | .schemas => .schema
  | .files => .validation

def handle (s : Settings) (name : WorkerName) (tag : Nat) (body : List UInt8) (now : Moment) :
    Job protocol Unit :=
  match name with
  | .schemas => handleSchema tag body now
  | .files => handleFile tag body s.workers now

/-- Gives a body to a worker, and tells how the worker settles it. -/
def deliver (s : Settings) (name : WorkerName) (tag : Nat) (body : List UInt8) (now : Moment)
    (w : World) : Except Fault (List Broker.Settlement) × World :=
  let before := w.stores.broker.settlements.length
  let (result, w) := w.serve (handle s name tag body now)
  (result.map (fun () => w.stores.broker.settlements.drop before), w)

/-- Gives the oldest message of its queue to a worker; none where there is no message. -/
def work? (s : Settings) (name : WorkerName) (tag : Nat) (now : Moment) (w : World) :
    Option (Except Fault (List Broker.Settlement) × World) :=
  (w.stores.broker.take? name.queue.name).map (fun (m, broker) =>
    { w with stores := { w.stores with broker } }.deliver s name tag (Text.encodeUtf8 m.body) now)

def drain (queue : Broker.Queue) (w : World) : List Broker.Message × World :=
  let (messages, broker) := w.stores.broker.drain queue.name
  (messages, { w with stores := { w.stores with broker } })

def startWorker (s : Settings) (name : WorkerName) (w : World) : List ChannelCall × World :=
  match name with
  | .schemas =>
    let (schemas, calls, next) := w.serveMessaging (w.manager.schemas.start mainThread s.prefetch)
    (calls, { next with manager := { w.manager with schemas } })
  | .files =>
    let (files, calls, next) := w.serveMessaging (w.manager.files.start mainThread s.prefetch)
    (calls, { next with manager := { w.manager with files } })

def stopWorker (name : WorkerName) (w : World) : List ChannelCall × World :=
  let consumer := match name with
    | .schemas => w.manager.schemas
    | .files => w.manager.files
  (w.serveMessaging (consumer.stop mainThread)).2

end World

end SheetIntake.Service
