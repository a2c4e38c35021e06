import SheetIntake.Text.Upper
import SheetIntake.Value.Access

/-!
# Functions in SQL

Three functions have a form in SQL: a sum is an addition of columns, a condition is a case
distinction, a conjunction is a conjunction. Any other function is marked as unsupported under the
name that it was called by. Names are compared in upper case.
-/

namespace SheetIntake

structure Operand where
  sql : Except Fault Value
  columns : Except Fault Value

def Operand.ofValue (v : Value) : Operand :=
  { sql := v.member "sql", columns := v.member "columns" }

namespace Sql

def argument (arguments : List Operand) (n : Nat) : Except Fault Operand :=
  match arguments.drop n with
  | a :: _ => .ok a
  | [] => .error .outOfRange

/-- The SQL of an argument, as text inside a longer one. -/
def argumentSql (arguments : List Operand) (n : Nat) : Except Fault String := do
  let a ← argument arguments n
  let sql ← a.sql
  return sql.text

/-- A sum adds the columns of its first argument. -/
def sum (arguments : List Operand) : Except Fault String := do
  let a ← argument arguments 0
  let columns ← a.columns
  columns.joinTexts " + "

def condition (arguments : List Operand) : Except Fault String := do
  let test ← argumentSql arguments 0
  let yes ← argumentSql arguments 1
  let no ← argumentSql arguments 2
  return "CASE WHEN " ++ test ++ " THEN " ++ yes ++ " ELSE " ++ no ++ " END"

def conjunction (arguments : List Operand) : Except Fault String := do
  let parts ← arguments.mapM (fun a => a.sql)
  let texts ← parts.mapM Value.expectText
  return String.intercalate " AND " texts

def function (name : String) (arguments : List Operand) : Except Fault String :=
  let key := Text.upper name
  if key = "SUM" then sum arguments
  else if key = "IF" then condition arguments
  else if key = "AND" then conjunction arguments
  else .ok ("UNSUPPORTED_FUNCTION(" ++ name ++ ")")

end Sql

end SheetIntake
