import SheetIntake.Text.Ranges

/-!
# Blanks and line breaks

White space of any script, and the characters that end a line.
-/

namespace SheetIntake.Text

def blankRanges : List (Nat × Nat) :=
  [(0x9, 0xd), (0x1c, 0x20), (0x85, 0x85), (0xa0, 0xa0), (0x1680, 0x1680), (0x2000, 0x200a),
   (0x2028, 0x2029), (0x202f, 0x202f), (0x205f, 0x205f), (0x3000, 0x3000)]

def isBlank (c : Char) : Bool :=
  inRanges blankRanges c.toNat

def strip (s : String) : String :=
  String.ofList (((s.toList.dropWhile isBlank).reverse.dropWhile isBlank).reverse)

/-- The code points that end a line, other than a carriage return before a line feed. -/
def breakRanges : List (Nat × Nat) :=
  [(0xa, 0xd), (0x1c, 0x1e), (0x85, 0x85), (0x2028, 0x2029)]

def isBreak (c : Char) : Bool :=
  inRanges breakRanges c.toNat

/-- The lines of a text. `line` holds the characters of the current line in reverse. A carriage
return and the line feed after it end one line, and a break at the very end opens no further line. -/
def splitLines : List Char → List Char → List (List Char)
  | line, [] => if line.isEmpty then [] else [line.reverse]
  | line, '\r' :: '\n' :: rest => line.reverse :: splitLines [] rest
  | line, c :: rest =>
    if isBreak c then line.reverse :: splitLines [] rest else splitLines (c :: line) rest

def lines (s : String) : List String :=
  (splitLines [] s.toList).map String.ofList

end SheetIntake.Text
