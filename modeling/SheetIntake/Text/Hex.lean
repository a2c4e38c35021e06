/-!
# Hexadecimal text

Bytes are written as two digits each. Reading skips blanks between bytes and refuses anything else.
-/

namespace SheetIntake.Text

def hexDigit (n : Nat) : Char :=
  if n < 10 then Char.ofNat (48 + n) else Char.ofNat (87 + n)

def hexDigits : Nat → Nat → List Char
  | 0, _ => []
  | width + 1, n => hexDigits width (n / 16) ++ [hexDigit (n % 16)]

def hexValue? (c : Char) : Option Nat :=
  if '0' ≤ c ∧ c ≤ '9' then some (c.toNat - 48)
  else if 'a' ≤ c ∧ c ≤ 'f' then some (c.toNat - 87)
  else if 'A' ≤ c ∧ c ≤ 'F' then some (c.toNat - 55)
  else none

def toHex (bytes : List UInt8) : String :=
  String.ofList (bytes.flatMap (fun b => hexDigits 2 b.toNat))

/-- Blanks that may stand between two bytes. -/
def isHexBlank (c : Char) : Bool :=
  c = ' ' || (9 ≤ c.toNat && c.toNat ≤ 13)

/-- The bytes of hexadecimal characters; none where they are not pairs of digits. -/
def hexBytes? : List Char → Option (List UInt8)
  | [] => some []
  | c :: [] => if isHexBlank c then some [] else none
  | c :: d :: rest =>
    if isHexBlank c then hexBytes? (d :: rest)
    else
      match hexValue? c, hexValue? d, hexBytes? rest with
      | some a, some b, some bytes => some (UInt8.ofNat (16 * a + b) :: bytes)
      | _, _, _ => none

def ofHex? (s : String) : Option (List UInt8) :=
  hexBytes? s.toList

end SheetIntake.Text
