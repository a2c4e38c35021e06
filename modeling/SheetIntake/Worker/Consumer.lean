import SheetIntake.Broker.Layout
import SheetIntake.Broker.Pool

/-!
# Consumers

A consumer is a worker that waits for the messages of a queue. Starting it opens a channel for its
thread, declares what the service needs, and begins to consume; if one of these steps fails, the
consumer is stopped. The manager starts a consumer for each of the two queues of requests.
-/

namespace SheetIntake.Worker

inductive ChannelCall where
  /-- At most so many deliveries are to be unsettled at a time. -/
  | prefetch (count : Nat)
  /-- Messages of a queue are asked for; `settled` tells whether the broker settles them itself. -/
  | consume (queue : String) (settled : Bool)
  | start
  | stop
  deriving DecidableEq, Repr

def ChannelCall.document : ChannelCall → Value
  | .prefetch n => .list [.str "qos", .int n]
  | .consume queue settled => .list [.str "consume", .str queue, .bool settled]
  | .start => .list [.str "start"]
  | .stop => .list [.str "stop"]

/-- A worker that waits for messages of a queue, with the channel that it got last. -/
structure Consumer where
  queue : Broker.Queue
  channel : Option Broker.Channel := none

/-- The broker as the consumers see it, with what they did with their channels. -/
structure Messaging where
  broker : Broker.Store := {}
  pool : Broker.Pool := {}
  accepting : Bool := true
  calls : List ChannelCall := []

namespace Messaging

abbrev Step (α : Type) : Type :=
  ExceptT Fault (StateM Messaging) α

def call (c : ChannelCall) : StateM Messaging Unit :=
  modify (fun m => { m with calls := m.calls ++ [c] })

def channelOf (t : Broker.Thread) : Step Broker.Channel := do
  let m ← getThe Messaging
  match m.pool.channel m.accepting t with
  | .ok (channel, pool) =>
    set { m with pool }
    return channel
  | .error fault => throw fault

def connectionOf (t : Broker.Thread) : Step Broker.Connection := do
  let m ← getThe Messaging
  match m.pool.connection m.accepting t with
  | .ok (connection, pool) =>
    set { m with pool }
    return connection
  | .error fault => throw fault

def declare : Step Unit := do
  let m ← getThe Messaging
  let (result, broker) := Broker.declareAll.run Broker.servers m.broker
  set { m with broker }
  match result with
  | .ok () => return
  | .error fault => throw fault

def readyChannel (t : Broker.Thread) : Step Broker.Channel := do
  let channel ← channelOf t
  declare
  return channel

end Messaging

namespace Consumer

/-- Stops a consumer and closes what its thread has opened, unless its channel is closed. -/
def stop (c : Consumer) (t : Broker.Thread) : StateM Messaging Unit := do
  match c.channel with
  | none => return
  | some channel =>
    if channel ∈ (← get).pool.openChannels then
      Messaging.call .stop
      modify (fun m => { m with pool := m.pool.release t })

def consume (c : Consumer) (prefetch : Nat) : Messaging.Step Unit := do
  Messaging.declare
  Messaging.call (.prefetch prefetch)
  Messaging.call (.consume c.queue.name false)
  Messaging.call .start

def start (c : Consumer) (t : Broker.Thread) (prefetch : Nat) : StateM Messaging Consumer := do
  match ← (Messaging.channelOf t).run with
  | .error _ =>
    c.stop t
    return c
  | .ok channel =>
    let c := { c with channel := some channel }
    match ← (c.consume prefetch).run with
    | .ok () => return c
    | .error _ =>
      c.stop t
      return c

end Consumer

structure Manager where
  files : Consumer := { queue := .validation }
  schemas : Consumer := { queue := .schema }
  running : Bool := true

namespace Manager

def filesStarted : String :=
  "Consuming validation worker"

def schemasStarted : String :=
  "Consuming schema worker"

def start (m : Manager) (fileThread schemaThread : Broker.Thread) (prefetch : Nat) :
    StateM Messaging Manager := do
  let files ← m.files.start fileThread prefetch
  let schemas ← m.schemas.start schemaThread prefetch
  return { m with files, schemas }

/-- Lets the manager end. The consumers go on in their threads. -/
def stop (m : Manager) : Manager :=
  { m with running := false }

def endingSignals : List String :=
  ["SIGINT", "SIGTERM"]

def exitCode : Nat :=
  0

end Manager

end SheetIntake.Worker
