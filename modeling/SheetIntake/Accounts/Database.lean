import SheetIntake.Accounts.Basic

/-!
# The database of accounts

Changes are gathered and then committed together. The database checks each of them: usernames,
telephone numbers and addresses of people are unique, a person has a role at most once, and a role
belongs to a person. A change that breaks one of these rules, or a commit that fails, leaves the
tables as they are.
-/

namespace SheetIntake.Accounts

inductive CommitFailure where
  | constraint (text : String)
  | other (text : String)
  deriving DecidableEq, Repr

def CommitFailure.fault : CommitFailure → Fault
  | .constraint text => .constraintViolated text
  | .other text => .commitFailed text

/-- The state of the database: the committed tables, and whether the next commit fails. -/
structure Database where
  tables : Tables := {}
  failure : Option CommitFailure := none
  deriving DecidableEq

inductive Change where
  | addPerson (person : Person)
  | changePerson (old new : Person)
  | addRole (username : String) (role : Role) (password : PasswordHash)
  | changeRole (old new : RoleEntry)
  | removeRole (entry : RoleEntry)

/-- How the database tells that a statement broke a rule. -/
def violationText (rule statement : String) (parameters : List Value) : String :=
  let shown := match parameters with
    | [v] => v.inspect ++ ","
    | vs => String.intercalate ", " (vs.map Value.inspect)
  rule ++ "\n[SQL: " ++ statement ++ "]\n[parameters: (" ++ shown ++ ")]"

def uniqueRule (columns : List String) : String :=
  "UNIQUE constraint failed: " ++ String.intercalate ", " columns

def ownerRule : String :=
  "FOREIGN KEY constraint failed"

namespace Tables

/-- The rule that a person would break beside others. -/
def clash? (others : List Person) (p : Person) : Option String :=
  if others.any (fun o => o.username = p.username) then some (uniqueRule ["user_info.username"])
  else if p.phone.isSome && others.any (fun o => o.phone = p.phone) then
    some (uniqueRule ["user_info.phone"])
  else if p.email.isSome && others.any (fun o => o.email = p.email) then
    some (uniqueRule ["user_info.email"])
  else none

def insertPerson (t : Tables) (p : Person) : Except Fault Tables :=
  match clash? t.people p with
  | some rule => .error (.constraintViolated (violationText rule
      ("INSERT INTO user_info (" ++ String.intercalate ", " (p.columns.map Prod.fst) ++
        ") VALUES (?, ?, ?, ?, ?, ?)") (p.columns.map Prod.snd)))
  | none => .ok { t with people := t.people ++ [p] }

def changedColumns (old new : Person) : List (String × Value) :=
  ((old.columns.zip new.columns).filter (fun c => c.1.2 ≠ c.2.2)).map Prod.snd

/-- Changes a person. A username cannot change while the person has roles. -/
def updatePerson (t : Tables) (old new : Person) : Except Fault Tables :=
  let changed := changedColumns old new
  if changed.isEmpty then .ok t
  else
    let rule := match clash? (t.people.filter (fun p => p.username ≠ old.username)) new with
      | some rule => some rule
      | none =>
        if new.username ≠ old.username ∧ t.roles.any (fun e => e.username = old.username) then
          some ownerRule
        else none
    match rule with
    | some rule => .error (.constraintViolated (violationText rule
        ("UPDATE user_info SET " ++
          String.intercalate ", " (changed.map (fun c => c.1 ++ "=?")) ++
          " WHERE user_info.username = ?")
        (changed.map Prod.snd ++ [.str old.username])))
    | none => .ok { t with
        people := t.people.map (fun p => if p.username = old.username then new else p) }

/-- The rule that a role would break beside others. -/
def roleClash? (t : Tables) (others : List RoleEntry) (username : String) (role : Role) :
    Option String :=
  if others.any (fun e => e.username = username && e.role = role) then
    some (uniqueRule ["user_roles.username", "user_roles.rol"])
  else if (t.person? username).isNone then some ownerRule
  else none

def nextId (t : Tables) : Nat :=
  (t.roles.map RoleEntry.id).foldl max 0 + 1

def insertRole (t : Tables) (username : String) (role : Role) (password : PasswordHash) :
    Except Fault Tables :=
  match roleClash? t t.roles username role with
  | some rule => .error (.constraintViolated (violationText rule
      "INSERT INTO user_roles (username, rol, password, is_active, inactivity) VALUES (?, ?, ?, ?, ?)"
      [.str username, .str role.name]))
  | none => .ok { t with roles := t.roles ++ [{ id := t.nextId, username, role, password }] }

def updateRole (t : Tables) (old new : RoleEntry) : Except Fault Tables :=
  if new = old then .ok t
  else
    match roleClash? t (t.roles.filter (fun e => e.id ≠ old.id)) new.username new.role with
    | some rule => .error (.constraintViolated (violationText rule
        "UPDATE user_roles SET rol=? WHERE user_roles.id = ?" [.str new.role.name, .int old.id]))
    | none => .ok { t with roles := t.roles.map (fun e => if e.id = old.id then new else e) }

def apply (t : Tables) : Change → Except Fault Tables
  | .addPerson p => t.insertPerson p
  | .changePerson old new => t.updatePerson old new
  | .addRole username role password => t.insertRole username role password
  | .changeRole old new => t.updateRole old new
  | .removeRole e => .ok { t with roles := t.roles.filter (fun r => r.id ≠ e.id) }

end Tables

abbrev Session (α : Type) : Type :=
  ExceptT Fault (StateM Database) α

namespace Session

def ofExcept {α : Type} (result : Except Fault α) : Session α :=
  ExceptT.mk (pure result)

def tables : Session Tables := do
  return (← getThe Database).tables

/-- Commits changes: all of them, or none when one of them breaks a rule or the commit fails. -/
def commit (changes : List Change) : Session Unit := do
  let d ← getThe Database
  let tables ← ofExcept (changes.foldlM Tables.apply d.tables)
  match d.failure with
  | some failure =>
    set { d with failure := none }
    throw failure.fault
  | none => set { d with tables }

end Session

end SheetIntake.Accounts
