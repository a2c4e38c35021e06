import SheetIntake.Decimal.Reader
import SheetIntake.Fault

/-!
# Forms

A form is an object whose members have to be of given forms. All fields are read, and the names of
those that are absent or refused are told together.
-/

namespace SheetIntake.Form

/-- The result of reading a form: a value, or the names of the refused fields. -/
abbrev Checked (α : Type) : Type := Except (List String) α

variable {α β : Type}

def required (members : List (String × Value)) (name : String) (read : Value → Option α) :
    Checked α :=
  match (Assoc.get? name members).bind read with
  | some a => .ok a
  | none => .error [name]

def optional (members : List (String × Value)) (name : String) (read : Value → Option α) :
    Checked (Option α) :=
  match Assoc.get? name members with
  | none | some .null => .ok none
  | some v =>
    match read v with
    | some a => .ok (some a)
    | none => .error [name]

/-- Gives a field to a function that waits for it. Refused fields add up. -/
def fill (x : Checked α) (f : Checked (α → β)) : Checked β :=
  match f, x with
  | .ok f, .ok a => .ok (f a)
  | .ok _, .error names => .error names
  | .error names, .ok _ => .error names
  | .error names, .error more => .error (names ++ more)

def result : Checked α → Except Fault α
  | .ok a => .ok a
  | .error names => .error (.invalidFields names)

/-- The text of a field: numbers and truth values are taken as texts. -/
def text? : Value → Option String
  | .str s => some s
  | .int n => some (toString n)
  | .float x => some x.text
  | .bool b => some (Value.bool b).text
  | _ => none

def wholePart? (x : Binary64) : Option Int :=
  x.fraction?.map (fun f => Int.tdiv f.1 f.2)

/-- The integer of a field: an integer, the whole part of a number, or a text that shows an
integer. -/
def integer? : Value → Option Int
  | .int n => some n
  | .bool b => some b.toNat
  | .float x => wholePart? x
  | .str s => Decimal.readInt? s
  | _ => none

end SheetIntake.Form
