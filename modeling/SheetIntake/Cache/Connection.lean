import SheetIntake.Fault

/-!
# The connection to the cache

A connection is opened with a host, a port, a database number and a password that may be absent.
-/

namespace SheetIntake.Cache

structure Connection where
  host : Value
  port : Value
  db : Value
  password : Value := .null

namespace Connection

def clientArguments (c : Connection) : Value :=
  .object [("host", c.host), ("port", c.port), ("db", c.db), ("password", c.password),
    ("decode_responses", .bool true)]

/-- Opens the connection; a client that is refused gives the reason. -/
def establish (c : Connection) (refusal : Option String) : Except Fault Connection :=
  match refusal with
  | none => .ok c
  | some reason => .error (.cacheRefused c.host.text c.port.text reason)

end Connection

end SheetIntake.Cache
