import SheetIntake.Broker.Store
import SheetIntake.Service.Settings

/-!
# What the service declares at the broker

One exchange takes all messages. Requests to validate files, requests about schemas, and the results
of both have a queue each.
-/

namespace SheetIntake.Broker

def exchangeName : String :=
  "typechecking.exchange"

inductive Queue where
  | validation
  | schema
  | schemaResults
  | validationResults
  deriving DecidableEq, Repr

namespace Queue

def all : List Queue :=
  [.validation, .schema, .schemaResults, .validationResults]

def name : Queue → String
  | .validation => "typechecking.validation.queue"
  | .schema => "typechecking.schema.queue"
  | .schemaResults => "typechecking.results.schema.queue"
  | .validationResults => "typechecking.results.validation.queue"

def pattern : Queue → String
  | .validation => "validation.*"
  | .schema => "schema.*"
  | .schemaResults => "results.schema"
  | .validationResults => "results.validation"

def key : Queue → String
  | .validation => "validation.request"
  | .schema => "schema.update"
  | .schemaResults => "results.schema"
  | .validationResults => "results.validation"

def binding (q : Queue) : Binding :=
  { exchange := exchangeName, queue := q.name, pattern := q.pattern }

end Queue

def declareAll : Job protocol Unit := do
  declareExchange exchangeName { kind := "topic", durable := true }
  Queue.all.forM (fun q => declareQueue q.name)
  Queue.all.forM (fun q => bind q.binding)

def Store.declared (s : Store) : List (String × Value) :=
  let names := (Assoc.keys s.queues).mergeSort (fun a b => decide (a ≤ b))
  [("exchanges", .object (s.exchanges.map (fun e =>
      (e.1, .list [.str e.2.kind, .bool e.2.durable])))),
    ("queues", .list (names.map .str)),
    ("bindings", .list (s.bindings.map (fun b =>
      .list [.str b.exchange, .str b.queue, .str b.pattern])))]

def Store.counts (s : Store) : Value :=
  let count (q : Queue) : Value := .int (s.waiting q.name).length
  .object [("schema", count .schema), ("validation", count .validation),
    ("schema_results", count .schemaResults), ("validation_results", count .validationResults)]

structure ConnectionParameters where
  host : String
  port : Nat
  path : String
  user : String
  /-- Seconds between signs of life. -/
  heartbeat : Nat := 600
  /-- Seconds until a connection that is blocked is given up. -/
  timeout : Nat := 300

namespace ConnectionParameters

def ofSettings (s : Settings) : ConnectionParameters :=
  { host := s.brokerHost, port := s.brokerPort, path := s.brokerPath, user := s.brokerUser }

def document (p : ConnectionParameters) : Value :=
  .object [("host", .str p.host), ("port", .int p.port), ("vhost", .str p.path),
    ("user", .str p.user), ("heartbeat", .int p.heartbeat), ("timeout", .int p.timeout)]

end ConnectionParameters

end SheetIntake.Broker
