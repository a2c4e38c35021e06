import SheetIntake.Decimal.Binary64
import SheetIntake.Text.Blank
import SheetIntake.Text.Digit

/-!
# Numbers read from text

A number may stand between blanks, may have a sign, may use the decimal digits of any script, and
may separate two digits by a low line. `readInt?` reads whole numbers; `readBinary64?` also reads a
point, an exponent, and the words for infinity and for what is not a number.
-/

namespace SheetIntake.Decimal

open SheetIntake.Text

/-- Blanks that may surround a number: all white space but the four information separators. -/
def isMargin (c : Char) : Bool :=
  isBlank c && !(0x1c ≤ c.toNat && c.toNat ≤ 0x1f)

/-- A decimal digit of any script as the digit of the basic set. -/
def plainDigit (c : Char) : Char :=
  match decimalValue? c with
  | some d => Char.ofNat (d + 48)
  | none => c

/-- The characters of a number: without the blanks around it and with plain digits. -/
def numberChars (s : String) : List Char :=
  let cs := s.toList.dropWhile isMargin
  ((cs.reverse.dropWhile isMargin).reverse).map plainDigit

/-- Drops the low lines of a number; none unless each one stands between two digits. -/
def joinDigits : Bool → List Char → Option (List Char)
  | _, [] => some []
  | _, '_' :: [] => none
  | afterDigit, '_' :: c :: rest =>
    if afterDigit && c.isDigit then (joinDigits true rest).map (c :: ·) else none
  | _, c :: rest => (joinDigits c.isDigit rest).map (c :: ·)

/-- The value of plain digits, the most significant first. -/
def digitsValue (cs : List Char) : Nat :=
  cs.foldl (fun n c => 10 * n + (c.toNat - 48)) 0

def splitSign : List Char → Bool × List Char
  | '-' :: rest => (true, rest)
  | '+' :: rest => (false, rest)
  | cs => (false, cs)

def onlyDigits (cs : List Char) : Bool :=
  !cs.isEmpty && cs.all Char.isDigit

def readInt? (s : String) : Option Int :=
  match joinDigits false (numberChars s) with
  | none => none
  | some cs =>
    let (negative, digits) := splitSign cs
    if onlyDigits digits then
      let n : Int := digitsValue digits
      some (if negative then -n else n)
    else none

/-- The exponent at the end of a number, zero when there is none. -/
def readExponent? : List Char → Option Int
  | [] => some 0
  | c :: rest =>
    if c = 'e' ∨ c = 'E' then
      let (negative, digits) := splitSign rest
      if onlyDigits digits then
        let n : Int := digitsValue digits
        some (if negative then -n else n)
      else none
    else none

/-- A number without its sign: digits, a point, digits, an exponent. -/
def readMagnitude? (negative : Bool) (cs : List Char) : Option Binary64 :=
  let whole := cs.takeWhile Char.isDigit
  let afterWhole := cs.dropWhile Char.isDigit
  let (fraction, rest) := match afterWhole with
    | '.' :: tail => (tail.takeWhile Char.isDigit, tail.dropWhile Char.isDigit)
    | _ => ([], afterWhole)
  if whole.isEmpty && fraction.isEmpty then none
  else
    match readExponent? rest with
    | none => none
    | some exponent =>
      some (Binary64.ofDecimal negative (digitsValue (whole ++ fraction))
        (exponent - fraction.length))

def readBinary64? (s : String) : Option Binary64 :=
  match joinDigits false (numberChars s) with
  | none => none
  | some cs =>
    let (negative, rest) := splitSign cs
    let word := String.ofList (rest.map Char.toLower)
    if word = "inf" ∨ word = "infinity" then some (.infinite negative)
    else if word = "nan" then some .nan
    else readMagnitude? negative rest

end SheetIntake.Decimal
