import SheetIntake.Formula.Sql

/-!
# Translated formulas

A translated formula keeps the tree of the formula and adds the SQL of every node. A range has no
SQL of its own: it gives the columns that it covers, which a sum then adds.
-/

namespace SheetIntake

inductive Translated where
  | binary (operator : Value) (left right : Translated) (sql : String)
  | call (name : String) (arguments : List Translated) (sql : String)
  /-- A range: its corners, the letters of its columns and their names. Where a column has no name
  there are no names at all, and an error. -/
  | range (first last : String) (letters : List String) (columns : List Value)
      (error : Option String)
  /-- A cell: its name, how it is referred to, and the name of its column, which is its SQL. -/
  | cell (name : String) (refKind column : Value) (error : Option String)
  /-- A number, and how it was given, which is its SQL. -/
  | number (value : Binary64) (sql : Value)
  | logical (value : Bool)
  | text (value sql : String)
  deriving Inhabited

namespace Translated

def logicalSql (b : Bool) : String :=
  if b then "TRUE" else "FALSE"

def sql : Translated → Except Fault Value
  | .binary _ _ _ sql => .ok (.str sql)
  | .call _ _ sql => .ok (.str sql)
  | .range .. => .error (.missing (.str "sql"))
  | .cell _ _ column _ => .ok column
  | .number _ sql => .ok sql
  | .logical b => .ok (.str (logicalSql b))
  | .text _ sql => .ok (.str sql)

/-- The names of the columns that a range covers; other formulas have none to give. -/
def columns : Translated → Except Fault Value
  | .range _ _ _ columns _ => .ok (.list columns)
  | _ => .error (.missing (.str "columns"))

def operand (t : Translated) : Operand :=
  { sql := t.sql, columns := t.columns }

mutual

def toValue : Translated → Value
  | .binary operator left right sql =>
    .object [("type", .str "binary-expression"), ("operator", operator), ("left", toValue left),
      ("right", toValue right), ("sql", .str sql)]
  | .call name arguments sql =>
    .object [("type", .str "function"), ("arguments", .list (toValues arguments)),
      ("name", .str name), ("sql", .str sql)]
  | .range first last letters columns error =>
    .object [("type", .str "cell-range"), ("start", .str first), ("end", .str last),
      ("cells", .list (letters.map .str)), ("columns", .list columns),
      ("error", .ofText? error)]
  | .cell name refKind column error =>
    .object [("type", .str "cell"), ("cell", .str name), ("refType", refKind), ("column", column),
      ("error", .ofText? error), ("sql", column)]
  | .number value sql =>
    .object [("type", .str "number"), ("value", .float value), ("sql", sql)]
  | .logical b =>
    .object [("type", .str "logical"), ("value", .bool b), ("sql", .str (logicalSql b))]
  | .text value sql =>
    .object [("type", .str "text"), ("value", .str value), ("sql", .str sql)]

def toValues : List Translated → List Value
  | [] => []
  | t :: rest => toValue t :: toValues rest

end

end Translated

end SheetIntake
