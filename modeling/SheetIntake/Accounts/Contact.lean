import SheetIntake.Pattern.Basic

/-!
# Contact data

An email address is a name, an at sign and a domain with at least one point. A phone number has ten
digits in groups of three, three and four, with at most one hyphen or blank between two groups.
Both forms end at the end of the text or at a line break that ends it.
-/

namespace SheetIntake.Contact

/-- The letters and digits of the basic alphabet, with some further characters. -/
def basicSet (further : List Char) : CharSet :=
  { items := [.between 'a' 'z', .between 'A' 'Z', .between '0' '9'] ++ further.map .one }

def literal (c : Char) : Pattern :=
  .one { items := [.one c] }

def atLeastOne (set : CharSet) : Pattern :=
  .times (.one set) 1 none

def emailPattern : Pattern :=
  .sequence [.start, atLeastOne (basicSet ['_', '.', '+', '-']), literal '@', atLeastOne (basicSet ['-']),
    literal '.', atLeastOne (basicSet ['-', '.']), .finish]

def digits (n : Nat) : Pattern :=
  .times (.one { items := [.digit false] }) n (some n)

/-- A hyphen or a blank that may stand between two groups. -/
def divider : Pattern :=
  .times (.one { items := [.one '-', .blank false] }) 0 (some 1)

def phonePattern : Pattern :=
  .sequence [.start, digits 3, divider, digits 3, divider, digits 4, .finish]

def isEmail (s : String) : Bool :=
  emailPattern.matchesStart s

def isPhone (s : String) : Bool :=
  phonePattern.matchesStart s

end SheetIntake.Contact
