import SheetIntake.Fault

/-!
# Passwords

A password is kept as a hash, from which only its first 72 bytes count. A password with a character
of code zero is refused.
-/

namespace SheetIntake.Accounts

def passwordBytes : Nat :=
  72

/-- A kept password: the bytes that count. -/
structure PasswordHash where
  key : List UInt8
  deriving DecidableEq

namespace PasswordHash

def keyOf (password : String) : Except Fault (List UInt8) :=
  if password.toList.contains (Char.ofNat 0) then .error .nulInPassword
  else .ok ((Text.encodeUtf8 password).take passwordBytes)

def ofPassword (password : String) : Except Fault PasswordHash := do
  return { key := ← keyOf password }

def verify (h : PasswordHash) (password : String) : Except Fault Bool := do
  let key ← keyOf password
  return key = h.key

end PasswordHash

end SheetIntake.Accounts
