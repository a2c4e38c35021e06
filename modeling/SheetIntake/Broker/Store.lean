import SheetIntake.Plan
import SheetIntake.Text.Search

/-!
# The message broker

Messages are published to an exchange under a key. Queues are bound to an exchange with patterns of
keys, and a message goes to the end of every queue that has a binding whose pattern its key matches.
The broker keeps a record of what was published and of how deliveries were settled. Each request is
one atomic step, and a request that fails changes nothing.
-/

namespace SheetIntake.Broker

/-- What is sent along with a message. -/
structure Properties where
  messageId : String
  /-- Seconds since the beginning of 1970. -/
  timestamp : Nat
  priority : Option Int := none
  deriving DecidableEq

namespace Properties

/-- The mode of messages that outlive the broker. -/
def persistent : Nat :=
  2

def document (p : Properties) : Value :=
  .object ([("message_id", .str p.messageId), ("timestamp", .int p.timestamp),
    ("delivery_mode", .int persistent)] ++ match p.priority with
      | some n => [("priority", .int n)]
      | none => [])

end Properties

structure Message where
  exchange : String
  key : String
  body : String
  properties : Option Properties := none
  deriving DecidableEq

def Message.document (m : Message) : Value :=
  .list [.str m.exchange, .str m.key, .str m.body,
    (m.properties.map Properties.document).getD .null]

structure Exchange where
  kind : String
  durable : Bool
  deriving DecidableEq, Repr

/-- A queue that gets the messages of an exchange whose keys match a pattern. -/
structure Binding where
  exchange : String
  queue : String
  pattern : String
  deriving DecidableEq, Repr

/-- Whether words match the words of a pattern, in which a star stands for any one word. -/
def wordsMatch : List String → List String → Bool
  | [], [] => true
  | p :: ps, w :: ws => (p = "*" || p = w) && wordsMatch ps ws
  | _, _ => false

/-- Whether a key matches a pattern. Words are divided by points. -/
def topicMatches (pattern key : String) : Bool :=
  wordsMatch (Text.splitOn pattern '.') (Text.splitOn key '.')

/-- How a worker settles a delivery, which is known by its tag. -/
inductive Settlement where
  | accepted (tag : Nat)
  | refused (tag : Nat) (again : Bool)
  deriving DecidableEq, Repr

def Settlement.document : Settlement → Value
  | .accepted tag => .list [.str "ack", .int tag]
  | .refused tag again => .list [.str "nack", .int tag, .bool again]

inductive Request where
  | declareExchange (name : String) (exchange : Exchange)
  | declareQueue (name : String)
  | bind (binding : Binding)
  | publish (message : Message)
  | settle (settlement : Settlement)
  deriving DecidableEq

/-- The protocol of the broker. No answer tells more than that the request was carried out. -/
abbrev protocol : Protocol :=
  { Request := Request, Answer := fun _ => Unit }

def declareExchange (name : String) (exchange : Exchange) : Job protocol Unit :=
  Job.ask (p := protocol) (.declareExchange name exchange)

def declareQueue (name : String) : Job protocol Unit :=
  Job.ask (p := protocol) (.declareQueue name)

def bind (binding : Binding) : Job protocol Unit :=
  Job.ask (p := protocol) (.bind binding)

def publish (message : Message) : Job protocol Unit :=
  Job.ask (p := protocol) (.publish message)

def settle (settlement : Settlement) : Job protocol Unit :=
  Job.ask (p := protocol) (.settle settlement)

structure Store where
  exchanges : List (String × Exchange) := []
  queues : List (String × List Message) := []
  bindings : List Binding := []
  published : List Message := []
  /-- How deliveries were settled, the first one first. -/
  settlements : List Settlement := []
  reachable : Bool := true

namespace Store

def routes (s : Store) (m : Message) (queue : String) : Bool :=
  s.bindings.any (fun b => b.queue = queue && b.exchange = m.exchange && topicMatches b.pattern m.key)

def withMessage (s : Store) (m : Message) : Store :=
  { s with
    queues := s.queues.map (fun q => (q.1, if s.routes m q.1 then q.2 ++ [m] else q.2))
    published := s.published ++ [m] }

def waiting (s : Store) (queue : String) : List Message :=
  (Assoc.get? queue s.queues).getD []

def take? (s : Store) (queue : String) : Option (Message × Store) :=
  match s.waiting queue with
  | [] => none
  | m :: rest => some (m, { s with queues := Assoc.put queue rest s.queues })

def drain (s : Store) (queue : String) : List Message × Store :=
  match s.waiting queue with
  | [] => ([], s)
  | messages => (messages, { s with queues := Assoc.put queue [] s.queues })

/-- The state of a broker that can be reached after a request. Declaring again what is there changes
nothing. -/
def after (s : Store) : Request → Store
  | .declareExchange name exchange => { s with exchanges := Assoc.put name exchange s.exchanges }
  | .declareQueue name =>
    if (Assoc.get? name s.queues).isSome then s
    else { s with queues := s.queues ++ [(name, [])] }
  | .bind binding =>
    if binding ∈ s.bindings then s else { s with bindings := s.bindings ++ [binding] }
  | .publish message => s.withMessage message
  | .settle settlement => { s with settlements := s.settlements ++ [settlement] }

end Store

/-- Whether a request is carried out even while the broker cannot be reached: deliveries are settled
on the side of the worker. -/
def Request.isLocal : Request → Bool
  | .settle _ => true
  | _ => false

def servers : Servers protocol Store := fun request s =>
  if s.reachable || request.isLocal then (.ok (), s.after request)
  else (.error .brokerUnreachable, s)

end SheetIntake.Broker
