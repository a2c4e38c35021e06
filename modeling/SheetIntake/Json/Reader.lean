import SheetIntake.Decimal.Reader
import SheetIntake.Text.Hex
import SheetIntake.Value.Basic

/-!
# JSON text as values

`Json.read` reads a whole text. A name that occurs twice in an object keeps its first place and its
last value. The words for what is not a number and for infinity are numbers. A fault has a reason
and the position where it was found.
-/

namespace SheetIntake.Json

inductive Reason where
  | expectedValue
  | extraData
  | expectedName
  | expectedColon
  | expectedComma
  | unterminatedText
  | controlCharacter
  | invalidEscape
  | invalidUnitEscape
  | byteOrderMark
  deriving DecidableEq, Repr

def Reason.message : Reason → String
  | .expectedValue => "Expecting value"
  | .extraData => "Extra data"
  | .expectedName => "Expecting property name enclosed in double quotes"
  | .expectedColon => "Expecting ':' delimiter"
  | .expectedComma => "Expecting ',' delimiter"
  | .unterminatedText => "Unterminated string starting at"
  | .controlCharacter => "Invalid control character at"
  | .invalidEscape => "Invalid \\escape"
  | .invalidUnitEscape => "Invalid \\uXXXX escape"
  | .byteOrderMark => "Unexpected UTF-8 BOM (decode using utf-8-sig)"

structure ReadFault where
  reason : Reason
  position : Nat
  deriving DecidableEq, Repr

/-- The wording of a fault in a text: its reason, line, column and position. -/
def ReadFault.message (cs : List Char) (f : ReadFault) : String :=
  let before := cs.take f.position
  let line := before.count '\n' + 1
  let column := (before.reverse.takeWhile (· ≠ '\n')).length + 1
  f.reason.message ++ ": line " ++ toString line ++ " column " ++ toString column ++
    " (char " ++ toString f.position ++ ")"

/-- The characters still to be read and how many came before them. -/
structure Cursor where
  position : Nat
  rest : List Char

def isGap (c : Char) : Bool :=
  c = ' ' || c = '\t' || c = '\n' || c = '\r'

def Cursor.skipGaps (c : Cursor) : Cursor :=
  ⟨c.position + (c.rest.takeWhile isGap).length, c.rest.dropWhile isGap⟩

/-- A step that either reads something and moves on, or finds a fault. -/
abbrev Step (α : Type) := Except ReadFault (α × Cursor)

def escaped? (c : Char) : Option Char :=
  if c = '"' ∨ c = '\\' ∨ c = '/' then some c
  else if c = 'b' then some (Char.ofNat 8)
  else if c = 'f' then some (Char.ofNat 12)
  else if c = 'n' then some '\n'
  else if c = 'r' then some '\r'
  else if c = 't' then some '\t'
  else none

def unit? (a b c d : Char) : Option Nat :=
  match Text.hexValue? a, Text.hexValue? b, Text.hexValue? c, Text.hexValue? d with
  | some a, some b, some c, some d => some (((16 * a + b) * 16 + c) * 16 + d)
  | _, _, _, _ => none

/-- Stands for a unit that is half a pair without its other half. -/
def strayUnit : Char :=
  Char.ofNat 0xfffd

/-- The characters read so far, with a first half that found no second half. -/
def settle (pending : Option Nat) (done : List Char) : List Char :=
  match pending with
  | some _ => strayUnit :: done
  | none => done

/-- Adds a unit to the characters read so far; the first half of a pair waits for the second. -/
def addUnit (pending : Option Nat) (done : List Char) (unit : Nat) : Option Nat × List Char :=
  if 0xd800 ≤ unit ∧ unit < 0xdc00 then (some unit, settle pending done)
  else if 0xdc00 ≤ unit ∧ unit < 0xe000 then
    match pending with
    | some high => (none, Char.ofNat (0x10000 + (high - 0xd800) * 1024 + (unit - 0xdc00)) :: done)
    | none => (none, strayUnit :: done)
  else (none, Char.ofNat unit :: settle pending done)

/-- Reads the characters of a text up to its closing quote. `start` is where the text began, `done`
holds the characters in reverse, and `pending` the first half of a pair of units. -/
def readText (start : Nat) : Nat → Option Nat → List Char → List Char → Step String
  | _, _, _, [] => .error ⟨.unterminatedText, start⟩
  | position, pending, done, '"' :: rest =>
    .ok (String.ofList (settle pending done).reverse, ⟨position + 1, rest⟩)
  | position, pending, done, '\\' :: 'u' :: rest =>
    match rest with
    | a :: b :: c :: d :: e :: tail =>
      match unit? a b c d with
      | some unit =>
        let (pending, done) := addUnit pending done unit
        readText start (position + 6) pending done (e :: tail)
      | none => .error ⟨.invalidUnitEscape, position + 1⟩
    | _ => .error ⟨.invalidUnitEscape, position + 1⟩
  | _, _, _, '\\' :: [] => .error ⟨.unterminatedText, start⟩
  | position, pending, done, '\\' :: c :: rest =>
    match escaped? c with
    | some e => readText start (position + 2) none (e :: settle pending done) rest
    | none => .error ⟨.invalidEscape, position⟩
  | position, pending, done, c :: rest =>
    if c.toNat < 32 then .error ⟨.controlCharacter, position⟩
    else readText start (position + 1) none (c :: settle pending done) rest

/-- The digits of a whole number: zero alone, or digits that do not start with it. -/
def wholeDigits : List Char → List Char
  | '0' :: _ => ['0']
  | cs => cs.takeWhile Char.isDigit

/-- The digits after a point, none unless there is a point with a digit after it. -/
def fractionDigits : List Char → List Char
  | '.' :: cs => cs.takeWhile Char.isDigit
  | _ => []

/-- The exponent and how many characters it takes, none unless it has a digit. -/
def exponentPart : List Char → Option (Int × Nat)
  | c :: cs =>
    if c = 'e' ∨ c = 'E' then
      let signed := match cs with
        | '-' :: _ | '+' :: _ => 1
        | _ => 0
      let (negative, rest) := Decimal.splitSign cs
      let digits := rest.takeWhile Char.isDigit
      if digits.isEmpty then none
      else
        let n : Int := Decimal.digitsValue digits
        some (if negative then -n else n, 1 + signed + digits.length)
    else none
  | [] => none

/-- Reads a number after its sign, a whole one unless it has a fraction or an exponent. The number,
with its sign, stands at `position`. -/
def readUnsigned (negative : Bool) (position : Nat) (start : List Char) : Step Value :=
  let whole := wholeDigits start
  if whole.isEmpty then .error ⟨.expectedValue, position⟩
  else
    let sign := if negative then 1 else 0
    let afterWhole := start.drop whole.length
    let fraction := fractionDigits afterWhole
    let taken := if fraction.isEmpty then 0 else fraction.length + 1
    let afterFraction := afterWhole.drop taken
    match exponentPart afterFraction with
    | none =>
      let next : Cursor := ⟨position + sign + whole.length + taken, afterFraction⟩
      if fraction.isEmpty then
        let n : Int := Decimal.digitsValue whole
        .ok (.int (if negative then -n else n), next)
      else
        .ok (.float (Binary64.ofDecimal negative (Decimal.digitsValue (whole ++ fraction))
          (-(fraction.length : Int))), next)
    | some (exponent, size) =>
      .ok (.float (Binary64.ofDecimal negative (Decimal.digitsValue (whole ++ fraction))
          (exponent - fraction.length)),
        ⟨position + sign + whole.length + taken + size, afterFraction.drop size⟩)

def readNumber (c : Cursor) : Step Value :=
  match c.rest with
  | '-' :: rest => readUnsigned true c.position rest
  | rest => readUnsigned false c.position rest

def words : List (String × Value) :=
  [("null", .null), ("true", .bool true), ("false", .bool false), ("NaN", .float .nan),
    ("Infinity", .float (.infinite false)), ("-Infinity", .float (.infinite true))]

def readAtom (c : Cursor) : Step Value :=
  match words.find? (fun w => w.1.toList.isPrefixOf c.rest) with
  | some (word, v) => .ok (v, ⟨c.position + word.length, c.rest.drop word.length⟩)
  | none => readNumber c

mutual

/-- Reads a value. Every call takes at least one character before it calls again, so the length of
the text is enough fuel. -/
def readValue : Nat → Cursor → Step Value
  | 0, c => .error ⟨.expectedValue, c.position⟩
  | fuel + 1, c =>
    match c.rest with
    | '"' :: rest =>
      match readText c.position (c.position + 1) none [] rest with
      | .ok (s, next) => .ok (.str s, next)
      | .error f => .error f
    | '[' :: rest =>
      let next := (Cursor.mk (c.position + 1) rest).skipGaps
      match next.rest with
      | ']' :: tail => .ok (.list [], ⟨next.position + 1, tail⟩)
      | _ => readItems fuel [] next
    | '\x7b' :: rest =>
      let next := (Cursor.mk (c.position + 1) rest).skipGaps
      match next.rest with
      | '\x7d' :: tail => .ok (.object [], ⟨next.position + 1, tail⟩)
      | _ => readMembers fuel [] next
    | _ => readAtom c

def readItems : Nat → List Value → Cursor → Step Value
  | 0, _, c => .error ⟨.expectedValue, c.position⟩
  | fuel + 1, done, c =>
    match readValue fuel c with
    | .error f => .error f
    | .ok (v, next) =>
      let next := next.skipGaps
      match next.rest with
      | ']' :: tail => .ok (.list (v :: done).reverse, ⟨next.position + 1, tail⟩)
      | ',' :: tail => readItems fuel (v :: done) (Cursor.mk (next.position + 1) tail).skipGaps
      | _ => .error ⟨.expectedComma, next.position⟩

def readMembers : Nat → List (String × Value) → Cursor → Step Value
  | 0, _, c => .error ⟨.expectedValue, c.position⟩
  | fuel + 1, done, c =>
    match c.rest with
    | '"' :: rest =>
      match readText c.position (c.position + 1) none [] rest with
      | .error f => .error f
      | .ok (name, next) =>
        let next := next.skipGaps
        match next.rest with
        | ':' :: tail =>
          match readValue fuel (Cursor.mk (next.position + 1) tail).skipGaps with
          | .error f => .error f
          | .ok (v, next) =>
            let next := next.skipGaps
            let members := Assoc.put name v done
            match next.rest with
            | '\x7d' :: tail => .ok (.object members, ⟨next.position + 1, tail⟩)
            | ',' :: tail =>
              readMembers fuel members (Cursor.mk (next.position + 1) tail).skipGaps
            | _ => .error ⟨.expectedComma, next.position⟩
        | _ => .error ⟨.expectedColon, next.position⟩
    | _ => .error ⟨.expectedName, c.position⟩

end

def readChars (cs : List Char) : Except ReadFault Value :=
  match cs with
  | '\ufeff' :: _ => .error ⟨.byteOrderMark, 0⟩
  | cs =>
    match readValue (2 * cs.length + 2) (Cursor.mk 0 cs).skipGaps with
    | .error f => .error f
    | .ok (v, next) =>
      let next := next.skipGaps
      if next.rest.isEmpty then .ok v else .error ⟨.extraData, next.position⟩

/-- The value of a JSON text, or the wording of what is wrong with it. -/
def read (s : String) : Except String Value :=
  match readChars s.toList with
  | .ok v => .ok v
  | .error f => .error (f.message s.toList)

end SheetIntake.Json
