/-!
# Patterns of keys

A pattern is a text in which a star stands for any characters, a question mark for any one, and
brackets for one of some characters. A backslash takes its special meaning from the character after
it.
-/

namespace SheetIntake.Cache

inductive GlobPart where
  | anything
  | anyChar
  | literal (c : Char)
  /-- A character that lies in one of the ranges, or in none of them. -/
  | oneOf (negated : Bool) (ranges : List (Char × Char))
  deriving DecidableEq, Repr

namespace GlobPart

/-- Whether a character lies between the ends of a range, whichever end is the lesser one. -/
def between (c : Char) (range : Char × Char) : Bool :=
  (range.1 ≤ c && c ≤ range.2) || (range.2 ≤ c && c ≤ range.1)

def accepts (c : Char) : GlobPart → Bool
  | .anything => false
  | .anyChar => true
  | .literal d => c = d
  | .oneOf negated ranges => ranges.any (between c) != negated

end GlobPart

/-- The ranges up to the closing bracket, and what follows it. Brackets that are not closed reach to
the end. -/
def bracketRanges : List Char → List (Char × Char) × List Char
  | [] => ([], [])
  | ']' :: rest => ([], rest)
  | '\\' :: c :: rest =>
    let (ranges, rest) := bracketRanges rest
    ((c, c) :: ranges, rest)
  | a :: '-' :: b :: rest =>
    let (ranges, rest) := bracketRanges rest
    ((a, b) :: ranges, rest)
  | c :: rest =>
    let (ranges, rest) := bracketRanges rest
    ((c, c) :: ranges, rest)

/-- The parts of a pattern. Each part takes at least one of the characters. -/
def globParts : Nat → List Char → List GlobPart
  | 0, _ => []
  | _ + 1, [] => []
  | fuel + 1, '*' :: rest => .anything :: globParts fuel rest
  | fuel + 1, '?' :: rest => .anyChar :: globParts fuel rest
  | fuel + 1, '[' :: '^' :: rest =>
    let (ranges, rest) := bracketRanges rest
    .oneOf true ranges :: globParts fuel rest
  | fuel + 1, '[' :: rest =>
    let (ranges, rest) := bracketRanges rest
    .oneOf false ranges :: globParts fuel rest
  | fuel + 1, '\\' :: c :: rest => .literal c :: globParts fuel rest
  | fuel + 1, c :: rest => .literal c :: globParts fuel rest

/-- The characters and all that remains of them when some are dropped from the front. -/
def suffixes : List Char → List (List Char)
  | [] => [[]]
  | c :: cs => (c :: cs) :: suffixes cs

def globMatches : List GlobPart → List Char → Bool
  | [], cs => cs.isEmpty
  | .anything :: parts, cs => (suffixes cs).any (globMatches parts)
  | part :: parts, cs =>
    match cs with
    | [] => false
    | c :: cs => part.accepts c && globMatches parts cs

def keyMatches (pattern key : String) : Bool :=
  globMatches (globParts pattern.length pattern.toList) key.toList

end SheetIntake.Cache
