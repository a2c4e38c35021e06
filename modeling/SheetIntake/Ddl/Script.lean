import SheetIntake.Ddl.Graph
import SheetIntake.Ddl.LevelTable

/-!
# Data definition scripts

A column that refers to no other is created with the table. Every other column is added to the table
as a generated column, and these additions are grouped by how many references the column has, its
level.
-/

namespace SheetIntake

/-- The statements that define a table: its creation, and the additions of columns by level. -/
structure Script where
  create : String
  additions : List (Nat × List String)

namespace Script

def columnType (types : Value) (name : String) : Except Fault String := do
  let entry ← types.member name
  let type ← entry.member "type"
  let extra ← entry.memberOr "extra" (.str "")
  return type.text ++ extra.text

def declaration (types : Value) (name : String) : Except Fault String := do
  let type ← columnType types name
  return name ++ " " ++ type

/-- The statement that creates a table. Without columns it stays open. -/
def creation (table : String) (declarations : List String) : String :=
  let start := "CREATE TABLE IF NOT EXISTS " ++ table ++ " ("
  if declarations.isEmpty then start
  else start ++ String.intercalate ", " declarations ++ ");"

def addition (types : Value) (table : String) (column : Column) : Except Fault String := do
  let declaration ← declaration types column.name
  let sql ← column.sql
  return "ALTER TABLE " ++ table ++ " ADD COLUMN " ++ declaration ++
    " GENERATED ALWAYS AS " ++ sql.text ++ " STORED;"

def ofGraph (columns : List Column) (graph : DependencyGraph) (types : Value) (table : String) :
    Except Fault Script := do
  if !graph.isAcyclic then throw .cyclicDefinitions
  let levels := columns.map (fun c => graph.outgoing c.name)
  let leveled := columns.zip levels
  let plain := leveled.filter (fun c => c.2 = 0)
  let declarations ← plain.mapM (fun c => declaration types c.1.name)
  let generated := (leveled.filter (fun c => c.2 ≠ 0)).mergeSort (fun a b => a.2 ≤ b.2)
  let statements ← generated.mapM (fun c => do
    let statement ← addition types table c.1
    return (c.2, statement))
  let order := (levelOrder levels).filter (fun level => level ≠ 0)
  return {
    create := creation table declarations
    additions := order.map (fun level =>
      (level, (statements.filter (fun s => s.1 = level)).map Prod.snd)) }

/-- The text of a script: an empty line follows the creation of the table. -/
def text (s : Script) : String :=
  s.create ++ "\n" ++
    String.join (s.additions.flatMap (fun level => level.2.map (fun sql => "\n" ++ sql)))

def ofColumns (columns types : Value) (table : String) : Except Fault Script := do
  let columns ← Column.ofValue columns
  let graph ← DependencyGraph.ofColumns columns
  ofGraph columns graph types table

end Script

end SheetIntake
