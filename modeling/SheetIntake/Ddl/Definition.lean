import SheetIntake.Formula.Basic
import SheetIntake.Value.Alike

/-!
# Definitions of columns

A column of a table is defined by a tree of cells, ranges, constants, functions and operators. What
matters here is which other columns it refers to. As with formulas, reading a document never fails:
faults are kept where they are and come up when the part in question is used.

A range is of the kind `cell_range` in definitions.
-/

namespace SheetIntake

inductive Definition where
  | cell (column : Field)
  | range (columns : Field)
  | constant
  | call (arguments : List Definition)
  | binary (left right : Definition)
  | unknown (kind : Value)
  /-- A node whose kind cannot be read. -/
  | unreadable (fault : Fault)
  deriving Inhabited

namespace Definition

/-- The node of an object, from the readings of its members: each as a node and as a sequence. -/
def ofMembers (members : List (String × Value))
    (nodes : List (String × Definition × List Definition)) : Definition :=
  let field (name : String) : Field := (Value.object members).member name
  let child (name : String) : Definition :=
    match Assoc.get? name nodes with
    | some (node, _) => node
    | none => .unreadable (.missing (.str name))
  match Assoc.get? "type" members with
  | none => .unreadable (.missing (.str "type"))
  | some (.str "cell") => .cell (field "column")
  | some (.str "cell_range") => .range (field "columns")
  | some (.str "logical") => .constant
  | some (.str "text") => .constant
  | some (.str "number") => .constant
  | some (.str "function") =>
    .call (match Assoc.get? "arguments" nodes with
      | some (_, sequence) => sequence
      | none => [.unreadable (.missing (.str "arguments"))])
  | some (.str "binary-expression") => .binary (child "left") (child "right")
  | some kind => .unknown kind

mutual

def ofValue : Value → Definition
  | .object members => ofMembers members (ofEach members)
  | _ => .unreadable .wrongKind

def sequenceOf : Value → List Definition
  | .list items => ofItems items
  | .str s => s.toList.map (fun _ => .unreadable .wrongKind)
  | .object members => members.map (fun _ => .unreadable .wrongKind)
  | _ => [.unreadable .wrongKind]

def ofItems : List Value → List Definition
  | [] => []
  | v :: rest => ofValue v :: ofItems rest

def ofEach : List (String × Value) → List (String × Definition × List Definition)
  | [] => []
  | (name, v) :: rest => (name, ofValue v, sequenceOf v) :: ofEach rest

end

/-- The list without values that are alike to an earlier one. -/
def withoutRepeats (vs : List Value) : List Value :=
  vs.foldl (fun seen v => if seen.any (fun w => w.alike v) then seen else seen ++ [v]) []

/-- The distinct names in a list; all of them have to be possible keys. -/
def distinct (vs : List Value) : Except Fault (List Value) :=
  if vs.all Value.isKey then .ok (withoutRepeats vs) else .error .wrongKind

mutual

def columns : Definition → Except Fault Value
  | .cell column => do
    let column ← column
    return .list [column]
  | .range columns => columns
  | .constant => .ok (.list [])
  | .call arguments => do
    let names ← columnsOfAll arguments
    return .list (← distinct names)
  | .binary left right => do
    let left ← columns left
    let right ← columns right
    let left ← distinct (← left.elements)
    let right ← distinct (← right.elements)
    return .list (withoutRepeats (left ++ right))
  | .unknown kind => .error (if kind.isKey then .missing kind else .wrongKind)
  | .unreadable fault => .error fault

/-- The names of the columns that definitions refer to, in order and with repetitions. -/
def columnsOfAll : List Definition → Except Fault (List Value)
  | [] => .ok []
  | d :: rest => do
    let names ← columns d
    let names ← names.elements
    let others ← columnsOfAll rest
    return names ++ others

end

def isConstant : Definition → Bool
  | .constant => true
  | _ => false

end Definition

inductive DefinitionKind where
  | cell
  | range
  | constant
  | call
  | binary
  deriving DecidableEq, Repr

namespace DefinitionKind

def of? : Definition → Option DefinitionKind
  | .cell _ => some .cell
  | .range _ => some .range
  | .constant => some .constant
  | .call _ => some .call
  | .binary _ _ => some .binary
  | .unknown _ => none
  | .unreadable _ => none

/-- What is said of a definition that is not of the family. -/
def mismatch : DefinitionKind → String
  | .cell => "Invalid cell mapping type"
  | .range => "Invalid cell range mapping type"
  | .constant => "Invalid logical mapping type"
  | .call => "Invalid function mapping type"
  | .binary => "Invalid binary expression mapping type"

end DefinitionKind

structure References where
  columns : Value
  error : Option String
  constants : Bool

/-- What a definition refers to, if it is of the given family. -/
def Definition.referencesAs (kind : DefinitionKind) (d : Definition) : Except Fault References :=
  match d with
  | .unreadable fault => .error fault
  | d =>
    if DefinitionKind.of? d = some kind then do
      let columns ← d.columns
      return { columns, error := none, constants := d.isConstant }
    else
      match kind, d with
      | .constant, .unknown (.list _) => .error .wrongKind
      | .constant, .unknown (.object _) => .error .wrongKind
      | _, _ => .ok { columns := .list [], error := some kind.mismatch, constants := false }

end SheetIntake
