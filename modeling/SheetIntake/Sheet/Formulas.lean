import SheetIntake.FormulaService.Node
import SheetIntake.Json.Writer
import SheetIntake.Sheet.Contents

/-!
# Formulas of a file

The first data cell of every column is shown to the formula service, and the tree that the service
answers with is kept beside the cell. A text is shown in quotes. All cells are shown before any
answer is looked at.
-/

namespace SheetIntake

structure AskedCell where
  header : Value
  cell : NamedCell
  answer : FormulaService.Message

abbrev AskedSheets := List (String × List AskedCell)

/-- A cell as it is shown: a text gets quotes around it. -/
def shownCell (c : NamedCell) : NamedCell :=
  if c.cell.kind = .text then
    { c with cell := { c.cell with value := .str ("\"" ++ c.cell.value.text ++ "\"") } }
  else c

/-- The cells of a sheet that are shown: the first of every column that has one. -/
def shownCells (c : SheetContents) : List (Value × NamedCell) :=
  c.data.filterMap (fun column =>
    match column.2 with
    | cell :: _ => some (column.1, shownCell cell)
    | [] => none)

def shownFormulas (sheets : List SheetContents) : List String :=
  sheets.flatMap (fun s => (shownCells s).map (fun c => c.2.cell.value.text))

/-- The shown cells with the answers of the service. Sheets that show none are left out. -/
def askAll (service : String → FormulaService.Message) (sheets : List SheetContents) :
    AskedSheets :=
  sheets.filterMap (fun s =>
    match shownCells s with
    | [] => none
    | cells => some (s.title, cells.map (fun c =>
        { header := c.1, cell := c.2, answer := service c.2.cell.value.text })))

def AskedCell.document (c : AskedCell) : Except Fault Value := do
  let formula ← c.answer.document
  match c.cell.toValue with
  | .object members => return .object (members ++ [("ast", formula)])
  | v => return v

def AskedSheets.documents (sheets : AskedSheets) :
    Except Fault (List (String × List (Value × Value))) :=
  sheets.mapM (fun s => do
    let columns ← s.2.mapM (fun c => do
      let document ← c.document
      return (c.header, Value.list [document]))
    return (s.1, columns))

def printedFormulas (sheets : List (String × List (Value × Value))) : String :=
  let document := Value.object (sheets.map (fun s =>
    (s.1, .object (s.2.map (fun c => (Json.nameText c.1, c.2))))))
  Json.write .plainTree document ++ "\n"

def sampleFile : String :=
  "/home/juand/Documents/vscode/proyecto/etl-design//typechecking/backend/static/" ++
    "acme__users__sample1.xlsx"

end SheetIntake
