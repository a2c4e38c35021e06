import SheetIntake.Decimal.Printed
import SheetIntake.Text.Hex
import SheetIntake.Value.Basic

/-!
# Values as JSON text

A value is written on one line, with a blank after commas and colons, or over several lines with an
indent. Characters outside the basic set are written as they are or as escapes of 16-bit units.
-/

namespace SheetIntake.Json

structure Layout where
  /-- Whether characters outside the basic set are escaped. -/
  escapes : Bool
  /-- How many blanks a level is indented by; none for a single line. -/
  indent : Option Nat

/-- One line, basic characters only: the form of messages and cached values. -/
def Layout.line : Layout := { escapes := true, indent := none }

/-- Four blanks a level. -/
def Layout.tree : Layout := { escapes := true, indent := some 4 }

/-- Four blanks a level, with all characters as they are. -/
def Layout.plainTree : Layout := { escapes := false, indent := some 4 }

def unitEscape (n : Nat) : List Char :=
  '\\' :: 'u' :: Text.hexDigits 4 n

/-- The escape of a character, two units for one beyond the first plane. -/
def charEscape (c : Char) : List Char :=
  let n := c.toNat
  if n < 0x10000 then unitEscape n
  else
    let m := n - 0x10000
    unitEscape (0xd800 + m / 1024) ++ unitEscape (0xdc00 + m % 1024)

def textChar (layout : Layout) (c : Char) : List Char :=
  if c = '"' ∨ c = '\\' then ['\\', c]
  else if c = '\n' then ['\\', 'n']
  else if c = '\r' then ['\\', 'r']
  else if c = '\t' then ['\\', 't']
  else if c.toNat = 8 then ['\\', 'b']
  else if c.toNat = 12 then ['\\', 'f']
  else if c.toNat < 32 ∨ (layout.escapes ∧ 127 ≤ c.toNat) then charEscape c
  else [c]

def textForm (layout : Layout) (s : String) : String :=
  String.ofList ('"' :: (s.toList.flatMap (textChar layout) ++ ['"']))

def numberForm (x : Binary64) : String :=
  match x with
  | .nan => "NaN"
  | .infinite false => "Infinity"
  | .infinite true => "-Infinity"
  | x => x.text

/-- The text that a value becomes as the name of a member. -/
def nameText : Value → String
  | .null => "null"
  | .bool true => "true"
  | .bool false => "false"
  | .int n => toString n
  | .float x => numberForm x
  | .str s => s
  | .list _ | .object _ => ""

/-- A line break and the indent of a level; nothing on a single line. -/
def lineBreak (layout : Layout) (level : Nat) : String :=
  match layout.indent with
  | none => ""
  | some width => "\n" ++ String.ofList (List.replicate (width * level) ' ')

def separator (layout : Layout) (level : Nat) : String :=
  match layout.indent with
  | none => ", "
  | some _ => "," ++ lineBreak layout level

def bracketed (layout : Layout) (level : Nat) (opening closing : String) (items : List String) :
    String :=
  if items.isEmpty then opening ++ closing
  else
    opening ++ lineBreak layout (level + 1) ++
      String.intercalate (separator layout (level + 1)) items ++ lineBreak layout level ++ closing

mutual

def form (layout : Layout) (level : Nat) : Value → String
  | .null => "null"
  | .bool true => "true"
  | .bool false => "false"
  | .int n => toString n
  | .float x => numberForm x
  | .str s => textForm layout s
  | .list items => bracketed layout level "[" "]" (formItems layout (level + 1) items)
  | .object members =>
    bracketed layout level "\x7b" "\x7d" (formMembers layout (level + 1) members)

def formItems (layout : Layout) (level : Nat) : List Value → List String
  | [] => []
  | v :: rest => form layout level v :: formItems layout level rest

def formMembers (layout : Layout) (level : Nat) : List (String × Value) → List String
  | [] => []
  | (name, v) :: rest =>
    (textForm layout name ++ ": " ++ form layout level v) :: formMembers layout level rest

end

def write (layout : Layout) (v : Value) : String :=
  form layout 0 v

end SheetIntake.Json
