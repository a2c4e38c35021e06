import SheetIntake.Decimal.Reader
import SheetIntake.Fault
import SheetIntake.Text.Search

/-!
# Cells

A cell holds a value and knows what kind of content it is: a text, a formula, an error code, a
number or a truth value. A position without a value is a cell of the number kind.
-/

namespace SheetIntake

inductive CellKind where
  | text
  | formula
  | error
  | number
  | logical
  deriving DecidableEq, Repr

namespace CellKind

def code : CellKind → String
  | .text => "s"
  | .formula => "f"
  | .error => "e"
  | .number => "n"
  | .logical => "b"

end CellKind

structure Cell where
  value : Value
  kind : CellKind
  deriving DecidableEq

namespace Cell

def vacant : Cell :=
  { value := .null, kind := .number }

/-- How many characters a text in a cell may have; longer ones are cut. -/
def textLimit : Nat :=
  32767

/-- Whether a character cannot be stored: a control character other than tab and line breaks. -/
def isIllegal (c : Char) : Bool :=
  c.toNat < 32 ∧ c ≠ '\t' ∧ c ≠ '\n' ∧ c ≠ '\r'

def errorCodes : List String :=
  ["#NULL!", "#DIV/0!", "#VALUE!", "#REF!", "#NAME?", "#NUM!", "#N/A"]

/-- The kind of a text: a formula has at least one character after its equals sign. -/
def kindOfText (s : String) : CellKind :=
  if s.length > 1 ∧ Text.startsWith s "=" then .formula
  else if s ∈ errorCodes then .error
  else .text

def ofText (s : String) : Except Fault Cell :=
  let s := if s.length > textLimit then String.ofList (s.toList.take textLimit) else s
  if s.toList.any isIllegal then .error .illegalCharacter
  else .ok { value := .str s, kind := kindOfText s }

/-- The text under which a number is stored, with sixteen significant digits; none where the number
is not finite. -/
def storedNumber? (x : Binary64) : Option String :=
  match x with
  | .finite negative m e _ =>
    let (num, den) := Binary64.magnitude m e
    let cs := (Decimal.rounded 16 num den).render .stored
    some (String.ofList (if negative then '-' :: cs else cs))
  | _ => none

/-- The number that a stored text stands for: with a point or an exponent it is a floating point
number, otherwise an integer. -/
def ofStoredNumber (s : String) : Value :=
  if s.toList.any (fun c => c = '.' ∨ c = 'e' ∨ c = 'E') then
    match Decimal.readBinary64? s with
    | some x => .float x
    | none => .null
  else
    match Decimal.readInt? s with
    | some n => .int n
    | none => .null

/-- The cell that is read back where a value was stored. Nothing is stored for null, and an empty
text comes back without a value. -/
def stored (v : Value) : Except Fault (Option Cell) :=
  match v with
  | .null => .ok none
  | .bool b => .ok (some { value := .bool b, kind := .logical })
  | .str s => do
    let cell ← ofText s
    return some (if s = "" then { cell with value := .null } else cell)
  | .int n =>
    match Binary64.ofInt? n with
    | some x => .ok (some
        { value := ((storedNumber? x).map ofStoredNumber).getD .null, kind := .number })
    | none => .error .integerTooLarge
  | .float x =>
    .ok (some { value := ((storedNumber? x).map ofStoredNumber).getD .null, kind := .number })
  | _ => .error .wrongKind

end Cell

end SheetIntake
