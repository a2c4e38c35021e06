import SheetIntake.Accounts.Contact
import SheetIntake.Accounts.Database
import SheetIntake.Accounts.Request
import SheetIntake.Accounts.Violation

/-!
# Operations on accounts

Accounts are created, changed, deactivated and removed. Each operation tells its outcome by a number,
a message and a status; the number zero means success. Only the first of all admins may touch
accounts of admins.

* `create` adds a person, if they are new, and a role; an inactive role is activated.
* `update` changes a person and one of their roles.
* `deactivate` makes a role inactive, `remove` deletes an inactive one.
-/

namespace SheetIntake.Accounts

structure Outcome where
  number : Nat
  message : String
  status : Nat
  deriving DecidableEq, Repr

namespace Outcome

def document (o : Outcome) : Value :=
  .object [("number", .int o.number), ("message", .str o.message), ("status", .int o.status)]

def unexpected (fault : Fault) : Outcome :=
  { number := 500, message := "Unexpected error: " ++ fault.inspect, status := 500 }

def ofWriteFault : Fault → Outcome
  | .constraintViolated text =>
    let v := Violation.ofText text
    { number := v.number, message := v.message, status := 409 }
  | fault => unexpected fault

/-- The outcome of a fault while a role is taken away; the text tells which rules are meant. -/
def ofDeleteFault (rules : String) : Fault → Outcome
  | .constraintViolated text =>
    { number := 409
      message := "Cannot delete user due to " ++ rules ++ " constraints: " ++
        (Fault.constraintViolated text).inspect
      status := 409 }
  | fault => unexpected fault

end Outcome

/-- Ends a session: a fault becomes an outcome. -/
def settled (session : Session Outcome) (ofFault : Fault → Outcome) : StateM Database Outcome := do
  match ← session.run with
  | .ok outcome => return outcome
  | .error fault => return ofFault fault

def given (s : Option String) : Option String :=
  s.filter (· ≠ "")

/-- Whether contacts are free: they belong to no person, one apart. -/
def contactsFree (t : Tables) (email phone apart : Option String) : Bool × Bool :=
  ((given email).all (fun e => t.emailFree e (given apart)),
    (given phone).all (fun p => t.phoneFree p (given apart)))

def contactProblem? (t : Tables) (p : Person) : Option Outcome :=
  let free := contactsFree t p.email p.phone none
  if p.email.any (fun e => !Contact.isEmail e) then
    some { number := 4, message := "Invalid email format.", status := 400 }
  else if p.phone.any (fun n => !Contact.isPhone n) then
    some { number := 5, message := "Invalid phone format.", status := 400 }
  else if !free.1 then some { number := 3, message := "Email already exists.", status := 409 }
  else if !free.2 then
    some { number := 4, message := "Phone number already exists.", status := 409 }
  else none

def createRole (a : NewAccount) : Session Outcome := do
  match (← Session.tables).roleOf? a.person.username a.role false with
  | none =>
    let password ← Session.ofExcept (PasswordHash.ofPassword a.password)
    Session.commit [.addRole a.person.username a.role password]
    return { number := 0, message := "User created successfully.", status := 201 }
  | some entry =>
    if entry.active then
      return { number := 2
               message := "Active user with same username and role already exists."
               status := 409 }
    Session.commit [.changeRole entry { entry with active := true }]
    return { number := 0, message := "User activated successfully.", status := 200 }

def createAccount (a : NewAccount) (known : Bool) : Session Outcome := do
  if known then createRole a
  else
    match contactProblem? (← Session.tables) a.person with
    | some outcome => return outcome
    | none =>
      Session.commit [.addPerson a.person]
      createRole a

def create (a : NewAccount) (superuser : Bool) : StateM Database Outcome := do
  if a.role = .admin ∧ !superuser then
    return { number := 1, message := "Cannot create admin user.", status := 403 }
  let known := ((← get).tables.account? a.person.username false).isSome
  settled (createAccount a known) Outcome.ofWriteFault

/-- The role entry after a change; there has to be one where something of it changes. -/
def changedEntry (c : AccountChange) (entry : Option RoleEntry) :
    Except Fault (Option RoleEntry) := do
  let absent (column : String) : Fault := .noSuchOperation "NoneType" column
  let entry ← match c.username, entry with
    | none, entry => pure entry
    | some username, some e => pure (some { e with username })
    | some _, none => throw (absent "username")
  let entry ← match c.password with
    | none => pure entry
    | some password => do
      let password ← PasswordHash.ofPassword password
      match entry with
      | some e => pure (some { e with password })
      | none => throw (absent "password")
  match c.role, entry with
  | none, entry => return entry
  | some role, some e => return some { e with role }
  | some _, none => throw (absent "rol")

def changeProblem? (t : Tables) (c : AccountChange) (p : Person) : Option Outcome :=
  let email := c.email.filter (fun e => some e ≠ p.email)
  let phone := c.phone.filter (fun n => some n ≠ p.phone)
  let free := contactsFree t email phone (some p.username)
  if c.username.any (fun u => u ≠ p.username && (t.anyRole? u false).isSome) then
    some { number := 3, message := "Username already exists.", status := 409 }
  else if c.email.any (fun e => !Contact.isEmail e) then
    some { number := 4, message := "Invalid email format.", status := 400 }
  else if c.phone.any (fun n => !Contact.isPhone n) then
    some { number := 5, message := "Invalid phone format.", status := 400 }
  else if !free.1 then
    some { number := 4, message := "Email already exists. " ++ email.getD "", status := 409 }
  else if !free.2 then
    some { number := 5, message := "Phone number already exists. " ++ phone.getD "", status := 409 }
  else none

def updateAccount (key : RoleKey) (c : AccountChange) (p : Person) : Session Outcome := do
  let t ← Session.tables
  match changeProblem? t c p with
  | some outcome => return outcome
  | none =>
    let entry := t.roleOf? key.username key.role false
    let changed ← Session.ofExcept (changedEntry c entry)
    let roles := match entry, changed with
      | some old, some new => [Change.changeRole old new]
      | _, _ => []
    Session.commit (.changePerson p (c.person p) :: roles)
    return { number := 0, message := "User updated successfully.", status := 200 }

def update (key : RoleKey) (c : AccountChange) (superuser : Bool) : StateM Database Outcome := do
  match (← get).tables.account? key.username false with
  | none => return { number := 1, message := "User does not exist.", status := 404 }
  | some account =>
    if !superuser ∧ account.roles.any (fun r => r.1 = .admin) then
      return { number := 2, message := "Cannot edit administrator user.", status := 403 }
    settled (updateAccount key c account.person) Outcome.ofWriteFault

def adminProtected : Outcome :=
  { number := 2, message := "Cannot delete administrator user.", status := 403 }

def deactivateRole (key : RoleKey) (today : Date) : Session Outcome := do
  match (← Session.tables).roleOf? key.username key.role true with
  | none => return { number := 1, message := "User does not exist.", status := 404 }
  | some entry =>
    Session.commit
      [.changeRole entry { entry with active := false, inactiveSince := some today }]
    return { number := 0, message := "User deleted successfully.", status := 200 }

def deactivate (key : RoleKey) (superuser : Bool) (today : Date) : StateM Database Outcome := do
  if key.role = .admin ∧ !superuser then return adminProtected
  settled (deactivateRole key today) (Outcome.ofDeleteFault "database")

def removeRole (key : RoleKey) : Session Outcome := do
  match (← Session.tables).roleOf? key.username key.role false with
  | none => return { number := 1, message := "User does not exist.", status := 404 }
  | some entry =>
    if entry.active then
      return { number := 3
               message := "Cannot delete active user completely. Deactivate first."
               status := 400 }
    Session.commit [.removeRole entry]
    return { number := 0, message := "User deleted completely from system.", status := 200 }

def remove (key : RoleKey) (superuser : Bool) : StateM Database Outcome := do
  if key.role = .admin ∧ !superuser then return adminProtected
  settled (removeRole key) (Outcome.ofDeleteFault "foreign key")

/-- The active role of a login with the right password. -/
def authenticate (t : Tables) (l : Login) : Except Fault (Option RoleEntry) :=
  match t.roleOf? l.username l.role true with
  | none => .ok none
  | some entry => do
    let right ← entry.password.verify l.password
    return if right then some entry else none

def ensureAdmin (username password : String) : StateM Database Unit := do
  match (← get).tables.roleOf? username .admin true with
  | some _ => return
  | none =>
    let _ ← create { person := { username }, role := .admin, password } true

end SheetIntake.Accounts
