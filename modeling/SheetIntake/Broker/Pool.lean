import SheetIntake.Fault

/-!
# Connections and channels of threads

A channel is opened on a connection. Each thread has a connection and a channel of its own, which it
uses again as long as they are open.

* `Pool.connection` and `Pool.channel` give those of a thread, opened anew where that is needed.
* `Pool.release` closes and forgets those of a thread.
* `Pool.dropConnection` and `Pool.dropChannel` are what the broker may do at any time.
-/

namespace SheetIntake.Broker

abbrev Thread : Type := Nat

structure Connection where
  number : Nat
  deriving DecidableEq, Repr

/-- A channel, by the number of its opening, with the connection on which it was opened. -/
structure Channel where
  number : Nat
  connection : Connection
  deriving DecidableEq, Repr

structure Pool where
  connections : List (Thread × Connection) := []
  channels : List (Thread × Channel) := []
  openConnections : List Connection := []
  openChannels : List Channel := []
  connectionCount : Nat := 0
  channelCount : Nat := 0
  deriving Repr

namespace Pool

def openConnection? (p : Pool) (t : Thread) : Option Connection :=
  (Assoc.get? t p.connections).filter (· ∈ p.openConnections)

def openChannel? (p : Pool) (t : Thread) : Option Channel :=
  (Assoc.get? t p.channels).filter (· ∈ p.openChannels)

/-- The connection of a thread. A new one is opened, if the broker accepts it, where none is open. -/
def connection (p : Pool) (accepting : Bool) (t : Thread) : Except Fault (Connection × Pool) :=
  match p.openConnection? t with
  | some c => .ok (c, p)
  | none =>
    if accepting then
      let c : Connection := { number := p.connectionCount }
      .ok (c, { p with
        connections := Assoc.put t c p.connections
        openConnections := c :: p.openConnections
        connectionCount := p.connectionCount + 1 })
    else .error .brokerUnreachable

/-- The channel of a thread, opened on its connection where none is open. -/
def channel (p : Pool) (accepting : Bool) (t : Thread) : Except Fault (Channel × Pool) := do
  let (c, p) ← p.connection accepting t
  match p.openChannel? t with
  | some ch => return (ch, p)
  | none =>
    let ch : Channel := { number := p.channelCount, connection := c }
    return (ch, { p with
      channels := Assoc.put t ch p.channels
      openChannels := ch :: p.openChannels
      channelCount := p.channelCount + 1 })

def releaseChannel (p : Pool) (t : Thread) : Pool :=
  match p.openChannel? t with
  | some ch => { p with
      channels := Assoc.erase t p.channels
      openChannels := p.openChannels.filter (· ≠ ch) }
  | none => p

/-- Closes the connection of a thread and forgets it, unless it is closed already. -/
def releaseConnection (p : Pool) (t : Thread) : Pool :=
  match p.openConnection? t with
  | some c => { p with
      connections := Assoc.erase t p.connections
      openConnections := p.openConnections.filter (· ≠ c) }
  | none => p

def release (p : Pool) (t : Thread) : Pool :=
  (p.releaseChannel t).releaseConnection t

def forgetChannel (p : Pool) (t : Thread) : Pool :=
  { p with channels := Assoc.erase t p.channels }

/-- The broker closes a connection, and its channels with it. -/
def dropConnection (p : Pool) (c : Connection) : Pool :=
  { p with
    openConnections := p.openConnections.filter (· ≠ c)
    openChannels := p.openChannels.filter (fun ch => ch.connection ≠ c) }

def dropChannel (p : Pool) (ch : Channel) : Pool :=
  { p with openChannels := p.openChannels.filter (· ≠ ch) }

end Pool

end SheetIntake.Broker
