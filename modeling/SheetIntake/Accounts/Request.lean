import SheetIntake.Accounts.Basic
import SheetIntake.Value.Form

/-!
# Requests about accounts

The forms that clients send: a new account, changes of an account, which role is meant, and a login.
-/

namespace SheetIntake.Accounts

open SheetIntake.Form

def role? : Value → Option Role
  | .str s => Role.ofName? s
  | _ => none

def sex? : Value → Option Sex
  | .str s => Sex.ofLetter? s
  | _ => none

structure RoleKey where
  username : String
  role : Role
  deriving DecidableEq, Repr

def RoleKey.ofMembers (members : List (String × Value)) : Except Fault RoleKey :=
  result (.ok RoleKey.mk
    |> fill (required members "username" text?)
    |> fill (required members "rol" role?))

structure Login where
  username : String
  password : String
  role : Role

def Login.ofMembers (members : List (String × Value)) : Except Fault Login :=
  result (.ok Login.mk
    |> fill (required members "username" text?)
    |> fill (required members "password" text?)
    |> fill (required members "rol" role?))

def personOf (members : List (String × Value)) : Checked Person :=
  .ok Person.mk
    |> fill (required members "username" text?)
    |> fill (optional members "name" text?)
    |> fill (optional members "surname" text?)
    |> fill (optional members "sex" sex?)
    |> fill (optional members "phone" text?)
    |> fill (optional members "email" text?)

structure NewAccount where
  person : Person
  role : Role
  password : String

namespace NewAccount

def ofMembers (members : List (String × Value)) : Except Fault NewAccount :=
  result (.ok NewAccount.mk
    |> fill (personOf members)
    |> fill (required members "rol" role?)
    |> fill (required members "password" text?))

def document (a : NewAccount) : Value :=
  .object (a.person.columns ++ [("rol", .str a.role.name), ("password", .str a.password)])

end NewAccount

structure AccountChange where
  username : Option String := none
  name : Option String := none
  surname : Option String := none
  sex : Option Sex := none
  phone : Option String := none
  email : Option String := none
  password : Option String := none
  role : Option Role := none

namespace AccountChange

def ofMembers (members : List (String × Value)) : Except Fault AccountChange :=
  result (.ok AccountChange.mk
    |> fill (optional members "username" text?)
    |> fill (optional members "name" text?)
    |> fill (optional members "surname" text?)
    |> fill (optional members "sex" sex?)
    |> fill (optional members "phone" text?)
    |> fill (optional members "email" text?)
    |> fill (optional members "password" text?)
    |> fill (optional members "rol" role?))

/-- The document of a change: the members that are given. -/
def document (c : AccountChange) : Value :=
  .object ([("username", c.username), ("name", c.name), ("surname", c.surname),
    ("sex", c.sex.map Sex.letter), ("phone", c.phone), ("email", c.email),
    ("password", c.password), ("rol", c.role.map Role.name)].filterMap (fun m =>
      m.2.map (fun s => (m.1, Value.str s))))

def person (c : AccountChange) (p : Person) : Person :=
  { username := c.username.getD p.username
    name := c.name.or p.name
    surname := c.surname.or p.surname
    sex := c.sex.or p.sex
    phone := c.phone.or p.phone
    email := c.email.or p.email }

end AccountChange

end SheetIntake.Accounts
