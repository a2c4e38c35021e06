import SheetIntake.Formula.Columns
import SheetIntake.Sheet.Cell
import SheetIntake.Sheet.Csv

/-!
# Workbooks

A workbook is a list of sheets, and a sheet is a list of rows of positions that may be vacant. The
sheet reaches from its first cell to the last row and the last column that have a cell.
-/

namespace SheetIntake

/-- A sheet with its rows. Rows may differ in length. -/
structure Sheet where
  title : String
  rows : List (List (Option Cell))

namespace Sheet

/-- How many columns a sheet has: as many as its longest row. -/
def width (s : Sheet) : Nat :=
  (s.rows.map List.length).foldl max 0

/-- How many of the rows there are up to the last one that has a cell. -/
def heightOf : List (List (Option Cell)) → Nat
  | [] => 0
  | row :: rest =>
    let below := heightOf rest
    if below > 0 then below + 1 else if row.isEmpty then 0 else 1

def height (s : Sheet) : Nat :=
  heightOf s.rows

def cellAt (s : Sheet) (row column : Nat) : Cell :=
  match s.rows[row]? with
  | some cells => (cells[column]?.join).getD Cell.vacant
  | none => Cell.vacant

def column (s : Sheet) (j : Nat) : List Cell :=
  (List.range s.height).map (fun i => s.cellAt i j)

def ofTexts (title : String) (rows : List (List String)) : Except Fault Sheet := do
  let rows ← rows.mapM (fun row => row.mapM (fun field => do
    let cell ← Cell.ofText field
    return some cell))
  return { title, rows }

end Sheet

structure WrittenSheet where
  title : String
  cells : List (String × Value)

namespace WrittenSheet

/-- The row and the column of a cell's name, both counted from zero. -/
def position (name : String) : Except Fault (Nat × Nat) := do
  let row ← Columns.rowOfCell name
  return ((row - 1).toNat, (Columns.index (Columns.ofCell name) - 1).toNat)

/-- The cells that are read back, with their positions. A cell that is written again keeps the last
value. -/
def cellsRead (w : WrittenSheet) : Except Fault (List ((Nat × Nat) × Cell)) := do
  let cells ← w.cells.mapM (fun c => do
    let place ← position c.1
    let cell ← Cell.stored c.2
    return (place, cell))
  let last := cells.foldl (fun m c => Assoc.put c.1 c.2 m) []
  return last.filterMap (fun c => c.2.map (fun cell => (c.1, cell)))

/-- The row of a sheet that a list of placed cells gives, up to its last cell. -/
def rowOf (cells : List ((Nat × Nat) × Cell)) (row : Nat) : List (Option Cell) :=
  let mine := cells.filter (fun c => c.1.1 = row)
  let width := (mine.map (fun c => c.1.2 + 1)).foldl max 0
  (List.range width).map (fun j => Assoc.get? (row, j) mine)

def read (w : WrittenSheet) : Except Fault Sheet := do
  let cells ← w.cellsRead
  let height := (cells.map (fun c => c.1.1 + 1)).foldl max 0
  return { title := w.title, rows := (List.range height).map (rowOf cells) }

end WrittenSheet

/-- What a file holds: plain bytes, or a workbook. -/
inductive FileContent where
  | bytes (content : List UInt8)
  | workbook (sheets : List WrittenSheet)

namespace FileContent

def workbookSheets : FileContent → Except Fault (List Sheet)
  | .workbook sheets => sheets.mapM WrittenSheet.read
  | .bytes _ => .error .notAWorkbook

def csvSheets : FileContent → Except Fault (List Sheet)
  | .bytes content =>
    match Text.decodeUtf8 content with
    | .ok text => do
      let rows ← Csv.read text
      let sheet ← Sheet.ofTexts "Sheet1" rows
      return [sheet]
    | .error fault => .error (.undecodable fault)
  | .workbook _ => .error .unsupportedFormat

/-- The sheets of a file; the end of its name tells what it holds. -/
def sheets (filename : String) (content : FileContent) : Except Fault (List Sheet) :=
  if Text.endsWith filename ".xlsx" ∨ Text.endsWith filename ".xls" then content.workbookSheets
  else if Text.endsWith filename ".csv" then content.csvSheets
  else .error .unsupportedFormat

end FileContent

end SheetIntake
