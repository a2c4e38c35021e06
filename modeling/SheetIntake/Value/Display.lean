import SheetIntake.Decimal.Printed
import SheetIntake.Text.Quoted
import SheetIntake.Value.Basic

/-!
# Values in messages

`Value.inspect` shows a value inside a message, texts in quotes. `Value.text` shows a value by
itself: a text as it is, anything else as it is inspected.
-/

namespace SheetIntake.Value

mutual

def inspect : Value → String
  | .null => "None"
  | .bool true => "True"
  | .bool false => "False"
  | .int n => toString n
  | .float x => x.text
  | .str s => Text.quoted s
  | .list items => "[" ++ String.intercalate ", " (inspectItems items) ++ "]"
  | .object members => "\x7b" ++ String.intercalate ", " (inspectMembers members) ++ "\x7d"

def inspectItems : List Value → List String
  | [] => []
  | v :: rest => inspect v :: inspectItems rest

def inspectMembers : List (String × Value) → List String
  | [] => []
  | (name, v) :: rest => (Text.quoted name ++ ": " ++ inspect v) :: inspectMembers rest

end

def text : Value → String
  | .str s => s
  | v => inspect v

end SheetIntake.Value
