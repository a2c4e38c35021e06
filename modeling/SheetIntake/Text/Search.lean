/-!
# Searching in texts

Texts are searched as lists of characters.
-/

namespace SheetIntake.Text

def occursIn (pattern : List Char) : List Char → Bool
  | [] => pattern.isEmpty
  | c :: cs => pattern.isPrefixOf (c :: cs) || occursIn pattern cs

def contains (s pattern : String) : Bool :=
  occursIn pattern.toList s.toList

def endsWith (s ending : String) : Bool :=
  ending.toList.isSuffixOf s.toList

def startsWith (s start : String) : Bool :=
  start.toList.isPrefixOf s.toList

/-- Replaces each occurrence of `pattern`, from the left and without overlaps. `skip` counts the
characters of an occurrence that are still to be passed over. -/
def replaceChars (pattern insert : List Char) : Nat → List Char → List Char
  | _, [] => []
  | skip + 1, _ :: cs => replaceChars pattern insert skip cs
  | 0, c :: cs =>
    if pattern.isPrefixOf (c :: cs) then insert ++ replaceChars pattern insert (pattern.length - 1) cs
    else c :: replaceChars pattern insert 0 cs

def replaceAll (s pattern insert : String) : String :=
  String.ofList (replaceChars pattern.toList insert.toList 0 s.toList)

def splitChars (separator : Char) : List Char → List (List Char)
  | [] => [[]]
  | c :: cs =>
    if c = separator then [] :: splitChars separator cs
    else
      match splitChars separator cs with
      | [] => [[c]]
      | part :: parts => (c :: part) :: parts

def splitOn (s : String) (separator : Char) : List String :=
  (splitChars separator s.toList).map String.ofList

def firstLine (s : String) : String :=
  String.ofList (s.toList.takeWhile (· ≠ '\n'))

/-- The lower case of a character, as far as it is a basic letter: those of the basic capitals and
that of the sign for kelvin. -/
def lowerChar (c : Char) : Char :=
  if c.toNat = 0x212A then 'k' else c.toLower

/-- Lower case as far as it brings basic letters. It serves where a basic word is looked for
afterwards. -/
def lowerBasic (s : String) : String :=
  String.ofList (s.toList.map lowerChar)

end SheetIntake.Text
