import SheetIntake.Accounts.Password
import SheetIntake.Moment

/-!
# Accounts

Two tables hold the accounts: people with their contacts, and the roles that people have. A role can
be inactive. The tables are searched here; how they change is told in `Accounts.Database`.
-/

namespace SheetIntake.Accounts

inductive Role where
  | admin
  | user
  deriving DecidableEq, Repr

namespace Role

def name : Role → String
  | .admin => "admin"
  | .user => "user"

def ofName? : String → Option Role
  | "admin" => some .admin
  | "user" => some .user
  | _ => none

end Role

inductive Sex where
  | male
  | female
  | other
  | notSpecified
  | unknown
  | undisclosed
  deriving DecidableEq, Repr

namespace Sex

def letter : Sex → String
  | .male => "M"
  | .female => "F"
  | .other => "O"
  | .notSpecified => "N"
  | .unknown => "U"
  | .undisclosed => "X"

def ofLetter? : String → Option Sex
  | "M" => some .male
  | "F" => some .female
  | "O" => some .other
  | "N" => some .notSpecified
  | "U" => some .unknown
  | "X" => some .undisclosed
  | _ => none

end Sex

structure Person where
  username : String
  name : Option String := none
  surname : Option String := none
  sex : Option Sex := none
  phone : Option String := none
  email : Option String := none
  deriving DecidableEq, Repr

namespace Person

def columns (p : Person) : List (String × Value) :=
  [("username", .str p.username), ("name", .ofText? p.name), ("surname", .ofText? p.surname),
    ("sex", .ofText? (p.sex.map Sex.letter)), ("phone", .ofText? p.phone),
    ("email", .ofText? p.email)]

def document (p : Person) : Value :=
  .object p.columns

end Person

structure RoleEntry where
  id : Nat
  username : String
  role : Role
  password : PasswordHash
  active : Bool := true
  inactiveSince : Option Date := none
  deriving DecidableEq

namespace RoleEntry

/-- The date since which a role is inactive, null where there is none. -/
def inactivity (e : RoleEntry) : Value :=
  .ofText? (e.inactiveSince.map Date.text)

/-- The document of a role, without its password. -/
def document (e : RoleEntry) : Value :=
  .object [("username", .str e.username), ("rol", .str e.role.name), ("is_active", .bool e.active),
    ("inactivity", e.inactivity)]

def row (e : RoleEntry) : Value :=
  .list [.int e.id, .str e.username, .str e.role.name, .bool e.active, e.inactivity]

end RoleEntry

/-- The two tables. Roles stand in the order of their numbers. -/
structure Tables where
  people : List Person := []
  roles : List RoleEntry := []
  deriving DecidableEq

namespace Tables

def person? (t : Tables) (username : String) : Option Person :=
  t.people.find? (fun p => p.username = username)

/-- The document of the tables: people by their usernames, roles by their numbers. -/
def document (t : Tables) : Value :=
  let people := t.people.mergeSort (fun a b => decide (a.username ≤ b.username))
  .object [("info", .list (people.map (fun p => .list (p.columns.map Prod.snd)))),
    ("roles", .list ((t.roles.mergeSort (fun a b => a.id ≤ b.id)).map RoleEntry.row))]

def counts (onlyActive : Bool) (e : RoleEntry) : Bool :=
  !onlyActive || e.active

def roleOf? (t : Tables) (username : String) (role : Role) (onlyActive : Bool) :
    Option RoleEntry :=
  t.roles.find? (fun e => e.username = username && e.role = role && counts onlyActive e)

def anyRole? (t : Tables) (username : String) (onlyActive : Bool) : Option RoleEntry :=
  t.roles.find? (fun e => e.username = username && counts onlyActive e)

def joined (t : Tables) (onlyActive : Bool) : List (Person × RoleEntry) :=
  (t.roles.filter (counts onlyActive)).filterMap (fun e =>
    (t.person? e.username).map (fun p => (p, e)))

/-- Whether no person, one apart, has a contact. -/
def emailFree (t : Tables) (email : String) (apart : Option String) : Bool :=
  !t.people.any (fun p => p.email = some email && some p.username ≠ apart)

def phoneFree (t : Tables) (phone : String) (apart : Option String) : Bool :=
  !t.people.any (fun p => p.phone = some phone && some p.username ≠ apart)

end Tables

/-- A person with the roles that they have, each active or not. -/
structure Account where
  person : Person
  roles : List (Role × Bool)
  deriving DecidableEq

namespace Account

def roleDocument (r : Role × Bool) : Value :=
  .object [("rol", .str r.1.name), ("is_active", .bool r.2)]

/-- The document of an account, with the roles or without. -/
def document (a : Account) (withRoles : Bool) : Value :=
  if withRoles then
    .object (a.person.columns ++ [("roles", .list (a.roles.map roleDocument))])
  else a.person.document

end Account

namespace Tables

/-- The account of a username with the roles that count, the role of an admin first; none where no
role counts. -/
def account? (t : Tables) (username : String) (onlyActive : Bool) : Option Account :=
  let mine := (t.joined onlyActive).filter (fun r => r.1.username = username)
  let admins := mine.filter (fun r => r.2.role = .admin)
  let others := mine.filter (fun r => r.2.role ≠ .admin)
  mine.head?.map (fun r =>
    { person := r.1, roles := (admins ++ others).map (fun r => (r.2.role, r.2.active)) })

end Tables

structure Page where
  items : List Account
  total : Nat
  page : Int
  limit : Int
  totalPages : Int
  hasNext : Bool
  hasPrevious : Bool

namespace Page

def document (p : Page) (withRoles : Bool) : Value :=
  .object [("items", .list (p.items.map (fun a => a.document withRoles))),
    ("total", .int p.total), ("page", .int p.page), ("limit", .int p.limit),
    ("total_pages", .int p.totalPages), ("has_next", .bool p.hasNext),
    ("has_prev", .bool p.hasPrevious)]

end Page

namespace Tables

def addRole (p : Person) (role : Role × Bool) : List Account → List Account
  | [] => [{ person := p, roles := [role] }]
  | a :: rest =>
    if a.person.username = p.username then { a with roles := a.roles ++ [role] } :: rest
    else a :: addRole p role rest

/-- Rows with the same username as one account, in the order of the first rows. -/
def grouped (rows : List (Person × RoleEntry)) : List Account :=
  rows.foldl (fun accounts r => addRole r.1 (r.2.role, r.2.active) accounts) []

/-- The rows of a window. A negative offset is none, and a negative limit does not limit. -/
def window {α : Type} (rows : List α) (limit offset : Int) : List α :=
  let rows := rows.drop offset.toNat
  if limit < 0 then rows else rows.take limit.toNat

/-- A page of the list of accounts. Pages are cut from the rows of roles. -/
def page (t : Tables) (onlyActive : Bool) (limit page : Int) : Page :=
  let rows := t.joined onlyActive
  let shown := window rows limit ((page - 1) * limit)
  if shown.isEmpty then
    { items := [], total := 0, page, limit, totalPages := 0, hasNext := false,
      hasPrevious := false }
  else
    let totalPages := Int.fdiv (rows.length + limit - 1) limit
    { items := grouped shown, total := rows.length, page, limit, totalPages,
      hasNext := page < totalPages, hasPrevious := page > 1 }

end Tables

end SheetIntake.Accounts
