import SheetIntake.Fault
import SheetIntake.Text.Blank

/-!
# Comma separated rows

A text is split into lines, and lines into fields at commas. A quote at the start of a field opens a
quoted field, in which commas are ordinary and a doubled quote stands for one. What follows the
closing quote is appended to the field. A quoted field that is still open at the end of a line goes
on with the next line, and the line break is dropped; the end of the text closes it. An empty line
is a row without fields.
-/

namespace SheetIntake.Csv

inductive Mode where
  | rowStart
  | fieldStart
  /-- Inside a field without quotes, or after the closing quote. -/
  | plain
  | quoted
  /-- After a quote inside a quoted field. -/
  | quoteSeen
  deriving DecidableEq, Repr

/-- A scanner of rows: the fields so far, the characters of the current field in reverse, and where
it stands. -/
structure Scanner where
  fields : List String := []
  field : List Char := []
  mode : Mode := .rowStart

namespace Scanner

def push (s : Scanner) (c : Char) (mode : Mode) : Scanner :=
  { s with field := c :: s.field, mode }

def close (s : Scanner) (mode : Mode) : Scanner :=
  { fields := s.fields ++ [String.ofList s.field.reverse], field := [], mode }

def step (s : Scanner) (c : Char) : Scanner :=
  match s.mode with
  | .rowStart | .fieldStart =>
    if c = '"' then { s with mode := .quoted }
    else if c = ',' then s.close .fieldStart
    else s.push c .plain
  | .plain => if c = ',' then s.close .fieldStart else s.push c .plain
  | .quoted => if c = '"' then { s with mode := .quoteSeen } else s.push c .quoted
  | .quoteSeen =>
    if c = '"' then s.push c .quoted
    else if c = ',' then s.close .fieldStart
    else s.push c .plain

def row (s : Scanner) : List String :=
  match s.mode with
  | .rowStart => []
  | _ => (s.close .rowStart).fields

end Scanner

/-- The rows of lines, for a scanner that may be inside a quoted field. -/
def rowsFrom : Scanner → List String → List (List String)
  | s, [] => if s.mode = .quoted then [s.row] else []
  | s, line :: rest =>
    let s := line.toList.foldl Scanner.step s
    if s.mode = .quoted then rowsFrom s rest else s.row :: rowsFrom {} rest

def rows (lines : List String) : List (List String) :=
  rowsFrom {} lines

def fieldLimit : Nat :=
  131072

/-- The rows of a text; no field may be longer than the limit. -/
def read (text : String) : Except Fault (List (List String)) :=
  let rows := rows (Text.lines text)
  if rows.any (fun row => row.any (fun field => field.length > fieldLimit)) then
    .error (.fieldTooLarge fieldLimit)
  else .ok rows

end SheetIntake.Csv
