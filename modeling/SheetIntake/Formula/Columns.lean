import SheetIntake.Decimal.Reader
import SheetIntake.Text.Letter
import SheetIntake.Text.Upper
import SheetIntake.Value.Access

/-!
# Columns and rows of a sheet

Columns are named by letters, in the order `A, …, Z, AA, AB, …`, which counts them from one. A cell
is named by the letters of its column and the number of its row. The letters of a name are taken
wherever they stand in it, and so are the digits.

* `Columns.index` counts a name's column, `Columns.letters` names a counted column.
* `Columns.span` lists the columns between two names.
* `Columns.rectangle` lists the cells between two cells, column by column.
-/

namespace SheetIntake.Columns

def ofCell (cell : String) : String :=
  String.ofList (cell.toList.filter Text.isLetter)

/-- The row of a cell: the number that its digits show. -/
def rowOfCell (cell : String) : Except Fault Int :=
  let digits := String.ofList (cell.toList.filter Text.isDigit)
  match Decimal.readInt? digits with
  | some n => .ok n
  | none => .error (.notAnInteger digits)

def place (c : Char) : Int :=
  (c.toNat : Int) - 64

/-- The count of a column from its upper case letters, the most significant first. -/
def indexOfChars (cs : List Char) : Int :=
  cs.foldl (fun n c => n * 26 + place c) 0

def index (name : String) : Int :=
  indexOfChars (Text.upper name).toList

/-- The letter with a place below 26, counted from zero. -/
def letter (n : Nat) : Char :=
  Char.ofNat (65 + n)

/-- The letters of a counted column; nothing stands for zero. -/
def letterChars : Nat → List Char
  | 0 => []
  | m + 1 => letterChars (m / 26) ++ [letter (m % 26)]
termination_by n => n
decreasing_by exact Nat.lt_succ_of_le (Nat.div_le_self m 26)

/-- The name of a counted column; there is none for counts below one. -/
def letters (n : Int) : String :=
  String.ofList (letterChars n.toNat)

def interval (first last : Int) : List Int :=
  (List.range (last + 1 - first).toNat).map (fun k : Nat => first + k)

def span (first last : String) : List String :=
  (interval (index first) (index last)).map letters

def rows (first last : String) : Except Fault (List Int) := do
  let start ← rowOfCell first
  let stop ← rowOfCell last
  return interval start stop

/-- The cells of the rectangle from one cell to another, column by column. -/
def rectangle (first last : String) : Except Fault (List String) := do
  let columns := span (ofCell first) (ofCell last)
  let rows ← rows first last
  return columns.flatMap (fun column => rows.map (fun row => column ++ toString row))

end SheetIntake.Columns
