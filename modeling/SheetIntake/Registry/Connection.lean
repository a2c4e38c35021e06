import SheetIntake.Fault

/-!
# The connection to the schema registry

A connection knows its client, its database and its collection. The last two cannot be asked for
while there is no database.
-/

namespace SheetIntake.Registry

structure Connection where
  client : Value
  base : Value
  documents : Value

namespace Connection

def database (c : Connection) : Except Fault Value :=
  if c.base = .null then
    .error (.databaseNotSet "Database not set. Please provide a database name.")
  else .ok c.base

/-- The collection, for which there has to be a database with a name. -/
def collection (c : Connection) : Except Fault Value :=
  if c.base.truthy then .ok c.documents
  else .error (.databaseNotSet
    "Database not set. Please set a database before accessing collections.")

end Connection

end SheetIntake.Registry
