import SheetIntake.Sheet.Workbook

/-!
# Tables of typed rows

A table has named columns. When it is read from comma separated text, each column gets the one kind
that all its fields have: whole numbers, numbers, truth values, or text. An empty field is null
whatever the kind of its column.
-/

namespace SheetIntake.Upload

inductive ColumnKind where
  | int
  | float
  | bool
  | text
  deriving DecidableEq, Repr

namespace ColumnKind

/-- The number that a field of digits shows, with a minus sign or not; none outside 64 bits. -/
def int? (field : String) : Option Int :=
  let (negative, digits) := match field.toList with
    | '-' :: rest => (true, rest)
    | cs => (false, cs)
  if Decimal.onlyDigits digits then
    let n : Int := Decimal.digitsValue digits
    let n := if negative then -n else n
    if -9223372036854775808 ≤ n ∧ n ≤ 9223372036854775807 then some n else none
  else none

/-- The number that a field of digits with a point between them shows. -/
def float? (field : String) : Option Binary64 :=
  let (negative, cs) := match field.toList with
    | '-' :: rest => (true, rest)
    | cs => (false, cs)
  match cs.dropWhile Char.isDigit with
  | '.' :: fraction =>
    let whole := cs.takeWhile Char.isDigit
    if Decimal.onlyDigits whole ∧ Decimal.onlyDigits fraction then
      some (Binary64.ofDecimal negative (Decimal.digitsValue (whole ++ fraction))
        (-(fraction.length : Int)))
    else none
  | _ => none

def bool? (field : String) : Option Bool :=
  match Text.lowerBasic field with
  | "true" => some true
  | "false" => some false
  | _ => none

def ofFields (fields : List String) : ColumnKind :=
  if fields.isEmpty then .text
  else if fields.all (fun f => (int? f).isSome) then .int
  else if fields.all (fun f => (int? f).isSome || (float? f).isSome) then .float
  else if fields.all (fun f => (bool? f).isSome) then .bool
  else .text

def value (kind : ColumnKind) (field : String) : Value :=
  if field = "" then .null
  else
    match kind with
    | .int => ((int? field).map Value.int).getD .null
    | .float =>
      match float? field, int? field with
      | some x, _ => .float x
      | none, some n => ((Binary64.ofInt? n).map Value.float).getD .null
      | none, none => .null
    | .bool => ((bool? field).map Value.bool).getD .null
    | .text => .str field

end ColumnKind

/-- The rows of a text. A row ends at a line feed that is not inside quotes, and a carriage return
before it belongs to the break. -/
def scanRows : Csv.Scanner → List Char → List (List String)
  | s, [] => [s.row]
  | s, '\r' :: '\n' :: rest =>
    if s.mode = .quoted then scanRows ((s.step '\r').step '\n') rest
    else s.row :: scanRows {} rest
  | s, c :: rest =>
    if c = '\n' ∧ s.mode ≠ .quoted then s.row :: scanRows {} rest else scanRows (s.step c) rest

/-- The rows of a text, without the one that would follow the last line break. -/
def textRows (text : String) : List (List String) :=
  let rows := scanRows {} text.toList
  if rows.getLast? = some [] then rows.dropLast else rows

/-- The rows below the headers. An empty line is a row only where there is one column, and not where
it is the only line. -/
def dataRows (columns : Nat) (rows : List (List String)) : List (List String) :=
  if columns = 1 ∧ rows ≠ [[]] then rows else rows.filter (fun row => !row.isEmpty)

def documents (headers : List String) (rows : List (List Value)) : List Value :=
  rows.map (fun row => .object
    ((headers.zip row).foldl (fun m cell => Assoc.put cell.1 cell.2 m) []))

/-- A row with exactly as many fields as there are headers. -/
def fitted (count : Nat) (row : List String) : List String :=
  (row ++ List.replicate count "").take count

def columnKinds (count : Nat) (rows : List (List String)) : List ColumnKind :=
  (List.range count).map (fun j =>
    ColumnKind.ofFields ((rows.filterMap (fun row => row[j]?)).filter (fun f => f ≠ "")))

/-- The rows of comma separated text. The first row holds the headers. -/
def csvRows (text : String) : Except Fault (List Value) :=
  match (textRows text).dropWhile List.isEmpty with
  | [] => .error .emptyTable
  | headers :: rows =>
    let rows := (dataRows headers.length rows).map (fitted headers.length)
    let kinds := columnKinds headers.length rows
    .ok (documents headers (rows.map (fun row => (kinds.zip row).map (fun f => f.1.value f.2))))

/-- The rows of a sheet, with the values as they are stored. The first row holds the headers. -/
def sheetRows (s : Sheet) : List Value :=
  let columns := List.range s.width
  let headers := columns.map (fun j => (s.cellAt 0 j).value.text)
  documents headers ((List.range (s.height - 1)).map (fun i =>
    columns.map (fun j => (s.cellAt (i + 1) j).value)))

end SheetIntake.Upload
