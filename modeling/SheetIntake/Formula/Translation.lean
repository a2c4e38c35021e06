import SheetIntake.Formula.Basic
import SheetIntake.Formula.Columns
import SheetIntake.Formula.Translated
import SheetIntake.Text.Search

/-!
# From formulas to SQL

A formula is translated with a map from column letters to the names of columns. A cell becomes the
name of its column, an operator keeps its two sides in brackets, and functions are translated by
`Sql.function`. A cell whose column has no name is no failure: it is translated to nothing and keeps
an error.

Parts are looked at in a fixed order, so of several faults the first one met is reported: a node's
children come before its own fields.
-/

namespace SheetIntake

inductive NodeKind where
  | binary
  | call
  | range
  | cell
  | number
  | logical
  | text
  deriving DecidableEq, Repr

namespace NodeKind

def name : NodeKind → String
  | .binary => "binary-expression"
  | .call => "function"
  | .range => "cell-range"
  | .cell => "cell"
  | .number => "number"
  | .logical => "logical"
  | .text => "text"

end NodeKind

namespace Formula

def kind? : Formula → Option NodeKind
  | .binary .. => some .binary
  | .call .. => some .call
  | .range .. => some .range
  | .cell .. => some .cell
  | .number _ => some .number
  | .logical _ => some .logical
  | .text _ => some .text
  | .unknown _ => none
  | .unreadable _ => none

/-- The floating point number that a value stands for: numbers, truth values and texts that show a
number do. -/
def toNumber : Value → Except Fault Binary64
  | .float x => .ok x
  | .int n =>
    match Binary64.ofInt? n with
    | some x => .ok x
    | none => .error .integerTooLarge
  | .bool b =>
    match Binary64.ofInt? (if b then 1 else 0) with
    | some x => .ok x
    | none => .error .integerTooLarge
  | .str s =>
    match Decimal.readBinary64? s with
    | some x => .ok x
    | none => .error (.notANumber s)
  | _ => .error .wrongKind

def columnName (columns : Value) (letters : String) : Except Fault (Value × Option String) :=
  match columns.member letters with
  | .ok name => .ok (name, none)
  | .error (.missing key) => .ok (.str "", some (Fault.missing key).inspect)
  | .error fault => .error fault

/-- The names of columns: all of them, or none and an error for the first that has no name. -/
def columnNames (columns : Value) (letters : List String) :
    Except Fault (List Value × Option String) :=
  match letters.mapM columns.member with
  | .ok names => .ok (names, none)
  | .error (.missing key) => .ok ([], some (Fault.missing key).inspect)
  | .error fault => .error fault

/-- A translated cell: its name without marks, how it is referred to, and its column. -/
def translateCell (columns : Value) (key refKind : Field) :
    Except Fault (String × Value × Value × Option String) := do
  let key ← key
  let key ← key.receiveText "replace"
  let name := Text.replaceAll key "$" ""
  let (column, error) ← columnName columns (Columns.ofCell name)
  let refKind ← refKind
  return (name, refKind, column, error)

/-- The name of the cell at a corner of a range; nothing but a cell can stand there. -/
def corner (columns : Value) : Formula → Except Fault String
  | .cell key refKind => do
    let (name, _) ← translateCell columns key refKind
    return name
  | .unreadable fault => .error fault
  | _ => .error (.wrongNode NodeKind.cell.name)

mutual

def translate (columns : Value) : Formula → Except Fault Translated
  | .binary operator left right => do
    let left ← translate columns left
    let right ← translate columns right
    let operator ← operator
    let leftSql ← left.sql
    let rightSql ← right.sql
    return .binary operator left right
      ("(" ++ leftSql.text ++ ") " ++ operator.text ++ " (" ++ rightSql.text ++ ")")
  | .call name arguments => do
    let name ← name
    let arguments ← translateAll columns arguments
    let name ← name.receiveText "upper"
    let sql ← Sql.function name (arguments.map Translated.operand)
    return .call name arguments sql
  | .range first last => do
    let first ← corner columns first
    let last ← corner columns last
    let letters := Columns.span (Columns.ofCell first) (Columns.ofCell last)
    let (names, error) ← columnNames columns letters
    return .range first last letters names error
  | .cell key refKind => do
    let (name, refKind, column, error) ← translateCell columns key refKind
    return .cell name refKind column error
  | .number value => do
    let value ← value
    let number ← toNumber value
    return .number number value
  | .logical value => do
    let value ← value
    return .logical (Text.lowerBasic value.text = "true")
  | .text value => do
    let value ← value
    let value ← value.receiveText "replace"
    return .text value ("'" ++ Text.replaceAll value "\"" "'" ++ "'")
  | .unknown kind => .error (if kind.isKey then .missing kind else .wrongKind)
  | .unreadable fault => .error fault

def translateAll (columns : Value) : List Formula → Except Fault (List Translated)
  | [] => .ok []
  | f :: rest => do
    let t ← translate columns f
    let ts ← translateAll columns rest
    return t :: ts

end

def translateAs (kind : NodeKind) (columns : Value) (f : Formula) : Except Fault Translated :=
  match f with
  | .unreadable fault => .error fault
  | f => if f.kind? = some kind then translate columns f else .error (.wrongNode kind.name)

end Formula

/-- The answer to a request that holds a formula and the names of columns. -/
def translateRequest (request : Value) : Except Fault Translated := do
  let formula ← request.member "ast"
  let columns ← request.member "columns"
  (Formula.ofValue formula).translate columns

end SheetIntake
