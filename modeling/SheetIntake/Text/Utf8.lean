import SheetIntake.Text.Hex

/-!
# UTF-8

Bytes are decoded character by character. Where that is impossible the fault names the first byte
that cannot be decoded, the bytes it reaches to, and the reason.
-/

namespace SheetIntake.Text

inductive Utf8Reason where
  | invalidStart
  | invalidContinuation
  | unexpectedEnd
  deriving DecidableEq, Repr

structure Utf8Fault where
  position : Nat
  length : Nat
  byte : UInt8
  reason : Utf8Reason
  deriving DecidableEq, Repr

def Utf8Reason.message : Utf8Reason → String
  | .invalidStart => "invalid start byte"
  | .invalidContinuation => "invalid continuation byte"
  | .unexpectedEnd => "unexpected end of data"

def Utf8Fault.message (f : Utf8Fault) : String :=
  if f.length = 1 then
    "'utf-8' codec can't decode byte 0x" ++ String.ofList (hexDigits 2 f.byte.toNat) ++
      " in position " ++ toString f.position ++ ": " ++ f.reason.message
  else
    "'utf-8' codec can't decode bytes in position " ++ toString f.position ++ "-" ++
      toString (f.position + f.length - 1) ++ ": " ++ f.reason.message

/-- What the first byte of a character says: how many more bytes follow, its own bits, and the
bounds of the second byte. -/
def utf8Lead (b : Nat) : Option (Nat × Nat × Nat × Nat) :=
  if b < 0x80 then some (0, b, 0, 0)
  else if b < 0xc2 then none
  else if b < 0xe0 then some (1, b - 0xc0, 0x80, 0xbf)
  else if b < 0xf0 then
    some (2, b - 0xe0, if b = 0xe0 then 0xa0 else 0x80, if b = 0xed then 0x9f else 0xbf)
  else if b < 0xf5 then
    some (3, b - 0xf0, if b = 0xf0 then 0x90 else 0x80, if b = 0xf4 then 0x8f else 0xbf)
  else none

/-- The result of reading the bytes that follow a lead byte: the code point and how many bytes were
taken, or the reason and how many of them were right. -/
def utf8Tail (low high : Nat) : Nat → Nat → Nat → List UInt8 → Except (Utf8Reason × Nat) Nat
  | 0, _, code, _ => .ok code
  | _ + 1, done, _, [] => .error (.unexpectedEnd, done)
  | more + 1, done, code, b :: rest =>
    if low ≤ b.toNat ∧ b.toNat ≤ high then
      utf8Tail 0x80 0xbf more (done + 1) (64 * code + (b.toNat - 0x80)) rest
    else .error (.invalidContinuation, done)

/-- Decodes bytes; `skip` counts the bytes of the current character still to be passed over. -/
def decodeUtf8Chars : Nat → Nat → List UInt8 → Except Utf8Fault (List Char)
  | _, _, [] => .ok []
  | position, skip + 1, _ :: rest => decodeUtf8Chars (position + 1) skip rest
  | position, 0, b :: rest =>
    match utf8Lead b.toNat with
    | none => .error ⟨position, 1, b, .invalidStart⟩
    | some (more, bits, low, high) =>
      match utf8Tail low high more 1 bits rest with
      | .error (reason, length) => .error ⟨position, length, b, reason⟩
      | .ok code =>
        match decodeUtf8Chars (position + 1) more rest with
        | .error f => .error f
        | .ok cs => .ok (Char.ofNat code :: cs)

def decodeUtf8 (bytes : List UInt8) : Except Utf8Fault String :=
  (decodeUtf8Chars 0 0 bytes).map String.ofList

def decodeLatin1 (bytes : List UInt8) : String :=
  String.ofList (bytes.map (fun b => Char.ofNat b.toNat))

def utf8Char (c : Char) : List UInt8 :=
  let n := c.toNat
  if n < 0x80 then [UInt8.ofNat n]
  else if n < 0x800 then [UInt8.ofNat (0xc0 + n / 64), UInt8.ofNat (0x80 + n % 64)]
  else if n < 0x10000 then
    [UInt8.ofNat (0xe0 + n / 4096), UInt8.ofNat (0x80 + n / 64 % 64), UInt8.ofNat (0x80 + n % 64)]
  else
    [UInt8.ofNat (0xf0 + n / 262144), UInt8.ofNat (0x80 + n / 4096 % 64),
      UInt8.ofNat (0x80 + n / 64 % 64), UInt8.ofNat (0x80 + n % 64)]

def encodeUtf8 (s : String) : List UInt8 :=
  s.toList.flatMap utf8Char

end SheetIntake.Text
