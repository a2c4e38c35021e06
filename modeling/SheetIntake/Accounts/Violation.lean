import SheetIntake.Text.Search
import SheetIntake.Value.Basic

/-!
# Violated constraints

The database tells in free text which constraint a change would break. The first of a few words that
the text has, in any case of letters, decides which field is to blame.
-/

namespace SheetIntake

/-- A violated constraint: the field to blame, what is told, and under which number. -/
structure Violation where
  field : String
  message : String
  number : Nat
  deriving DecidableEq, Repr

namespace Violation

def document (v : Violation) : Value :=
  .object [("field", .str v.field), ("message", .str v.message), ("number", .int v.number)]

def ofText (text : String) : Violation :=
  let text := Text.lowerBasic text
  let has (word : String) : Bool := Text.contains text word
  if has "email" || has "user_info_email_key" then
    { field := "email", message := "Email already exists.", number := 4 }
  else if has "phone" || has "user_info_phone_key" then
    { field := "phone", message := "Phone number already exists.", number := 5 }
  else if has "username" || has "user_info_pkey" then
    { field := "username", message := "Username already exists.", number := 3 }
  else if has "unique_user_rol" then
    { field := "user_role", message := "User with this role already exists.", number := 2 }
  else
    { field := "unknown", message := "Database constraint violation.", number := 409 }

end Violation

end SheetIntake
