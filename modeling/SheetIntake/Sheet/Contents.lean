import SheetIntake.Sheet.Workbook
import SheetIntake.Value.Alike

/-!
# Contents of a sheet

The contents of a sheet are its columns. The first cell of a column is its header, the other cells
are its data. Two columns with the same header are one in the data: it stands where the first one
stood and holds the cells of the last one. Headers are the same when their values are alike.
-/

namespace SheetIntake

structure NamedCell where
  name : String
  cell : Cell
  deriving DecidableEq

namespace NamedCell

def toValue (c : NamedCell) : Value :=
  .object [("cell", .str c.name), ("value", c.cell.value), ("data_type", .str c.cell.kind.code),
    ("is_formula", .bool (c.cell.kind = .formula))]

end NamedCell

def lastColumn : Nat :=
  18278

structure SheetContents where
  title : String
  columns : List (String × List NamedCell)

namespace SheetContents

def namedColumn (s : Sheet) (j : Nat) : Except Fault (String × List NamedCell) :=
  if j + 1 > lastColumn then .error (.columnOutOfRange (j + 1))
  else
    let letters := Columns.letters (j + 1)
    .ok (letters, s.column j |>.mapIdx (fun i cell =>
      { name := letters ++ toString (i + 1), cell }))

def ofSheet (s : Sheet) : Except Fault SheetContents := do
  let columns ← (List.range s.width).mapM (namedColumn s)
  return { title := s.title, columns }

def header (cells : List NamedCell) : Value :=
  match cells with
  | c :: _ => c.cell.value
  | [] => .null

def headers (c : SheetContents) : List Value :=
  c.columns.map (fun column => header column.2)

/-- A map with loosely equal keys: the first key and its place stay, the last value counts. -/
def putAlike (key : Value) (cells : List NamedCell) :
    List (Value × List NamedCell) → List (Value × List NamedCell)
  | [] => [(key, cells)]
  | (k, old) :: rest =>
    if k.alike key then (k, cells) :: rest else (k, old) :: putAlike key cells rest

def data (c : SheetContents) : List (Value × List NamedCell) :=
  c.columns.foldl (fun m column => putAlike (header column.2) (column.2.drop 1) m) []

end SheetContents

def cellsDocument (cells : List NamedCell) : Value :=
  .list (cells.map NamedCell.toValue)

/-- The document of the contents of a file: for each sheet the columns, the headers and the data. -/
def contentsDocument (sheets : List SheetContents) : Value :=
  let each (f : SheetContents → Value) : Value :=
    .list (sheets.map (fun s => .list [.str s.title, f s]))
  .object [
    ("raw_data", each (fun s => .list (s.columns.map (fun c =>
      .list [.str c.1, cellsDocument c.2])))),
    ("columns", each (fun s => .list s.headers)),
    ("data", each (fun s => .list (s.data.map (fun c => .list [c.1, cellsDocument c.2]))))]

/-- The contents of a file, sheet by sheet. A sheet that has the title of an earlier one takes its
place. -/
def readSpreadsheet (filename : String) (content : FileContent) :
    Except Fault (List SheetContents) := do
  let sheets ← content.sheets filename
  let contents ← sheets.mapM SheetContents.ofSheet
  let byTitle := contents.foldl (fun m c => Assoc.put c.title c m) []
  return byTitle.map Prod.snd

end SheetIntake
