import SheetIntake.Cache.Overview
import SheetIntake.Service.Token

/-!
# Routes about accounts

Requests about accounts read and change the account database. Answers about accounts are kept in the
cache for some minutes, and every change of an account deletes the answers that it may concern.

* `myInfo` answers about the account that asks.
* `searchAccount` and `listAccounts` answer admins about others.
* `createAccount`, `updateAccount` and `deleteAccount` change accounts.
-/

namespace SheetIntake.Service

structure Office where
  cache : Cache.Store := {}
  accounts : Accounts.Database := {}

namespace Office

/-- A request that may fail; what it has changed before remains. -/
abbrev Action (α : Type) : Type :=
  ExceptT Fault (StateM Office) α

variable {α : Type}

def ofExcept (result : Except Fault α) : Action α :=
  ExceptT.mk (pure result)

def withCache (job : Job Cache.protocol α) : Action α := do
  let o ← getThe Office
  let (result, cache) := job.run Cache.servers o.cache
  set { o with cache }
  ofExcept result

def withAccounts (operation : StateM Accounts.Database α) : Action α := do
  let o ← getThe Office
  let (a, accounts) := operation.run o.accounts
  set { o with accounts }
  return a

def tables : Action Accounts.Tables := do
  return (← getThe Office).accounts.tables

/-- A text kept in the cache that is not empty. -/
def kept (key : String) : Action (Option String) := do
  return (← withCache (Cache.get key)).filter (· ≠ "")

def keep (s : Settings) (key : String) (document : Value) : Action Unit :=
  withCache (Cache.set key (.str (Json.write .line document)) (some s.cacheSeconds))

end Office

open Office

def keptMembers (text : String) : Except Fault (List (String × Value)) := do
  match ← Cache.parsed text with
  | .object members => return members
  | _ => throw .wrongKind

def keptRole? : Value → Option (Accounts.Role × Bool)
  | .object members =>
    match (Assoc.get? "rol" members).bind Accounts.role?, Assoc.get? "is_active" members with
    | some role, some (.bool active) => some (role, active)
    | _, _ => none
  | _ => none

def keptRoles? : Value → Option (List (Accounts.Role × Bool))
  | .list items => items.mapM keptRole?
  | _ => none

def keptAccount (text : String) (withRoles : Bool) : Except Fault Accounts.Account := do
  let members ← keptMembers text
  let roles := if withRoles then Form.required members "roles" keptRoles? else .ok []
  Form.result (.ok Accounts.Account.mk
    |> Form.fill (Accounts.personOf members)
    |> Form.fill roles)

/-- The document about an account: the kept one, where that may be used, or else that of the account
as it is now, which is kept. -/
def accountAnswer (s : Settings) (key username : String) (onlyActive withRoles useCache : Bool) :
    Action Value := do
  let kept ← kept key
  match if useCache then kept else none with
  | some text => return (← Office.ofExcept (keptAccount text withRoles)).document withRoles
  | none =>
    match (← tables).account? username onlyActive with
    | none => throw (.rejected 404 (.str "User not found"))
    | some account =>
      keep s key (account.document withRoles)
      return account.document withRoles

def myInfoKey (username : String) : String :=
  username ++ ":user_info"

def myInfo (s : Settings) (username : String) : Action Value :=
  accountAnswer s (myInfoKey username) username true false true

structure Search where
  username : String
  withRoles : Bool := false
  onlyActive : Bool := true
  useCache : Bool := true

def flagText (b : Bool) : String :=
  (Value.bool b).text

def searchKey (admin : String) (q : Search) : String :=
  admin ++ ":user_info:" ++ q.username ++ ":" ++ flagText q.onlyActive ++ ":" ++
    flagText q.withRoles

def searchAccount (s : Settings) (admin : String) (q : Search) : Action Value :=
  accountAnswer s (searchKey admin q) q.username q.onlyActive q.withRoles q.useCache

structure Listing where
  onlyActive : Bool := true
  withRoles : Bool := false
  limit : Int := 100
  page : Int := 1
  useCache : Bool := true

def listingKey (q : Listing) : String :=
  "all_users:active=" ++ flagText q.onlyActive ++ ":rol=" ++ flagText q.withRoles ++
    ":limit=" ++ toString q.limit ++ ":page=" ++ toString q.page

def listAccounts (s : Settings) (q : Listing) : Action Value := do
  let kept ← kept (listingKey q)
  match if q.useCache then kept else none with
  | some text => Office.ofExcept (Cache.parsed text)
  | none =>
    let page := (← tables).page q.onlyActive q.limit q.page
    keep s (listingKey q) (page.document q.withRoles)
    return page.document q.withRoles

def isFirstAdmin (s : Settings) (e : Accounts.RoleEntry) : Bool :=
  e.username = s.firstAdmin

def changeAnswer (outcome : Accounts.Outcome) (data : Value) : TaskRecord :=
  { status := "success", code := outcome.status, message := outcome.message, data }

/-- Carries out a change of accounts and deletes the kept answers that it may concern. -/
def changeAccounts (operation : StateM Accounts.Database Accounts.Outcome) (username : String)
    (data : Value) : Action TaskRecord := do
  let outcome ← withAccounts operation
  if outcome.number ≠ 0 then throw (.rejected outcome.status (.str outcome.message))
  withCache (Cache.forgetAccount username true)
  return changeAnswer outcome data

def createAccount (s : Settings) (admin : Accounts.RoleEntry) (a : Accounts.NewAccount) :
    Action TaskRecord :=
  changeAccounts (Accounts.create a (isFirstAdmin s admin)) "" a.document

def updateAccount (s : Settings) (admin : Accounts.RoleEntry) (key : Accounts.RoleKey)
    (change : Accounts.AccountChange) : Action TaskRecord :=
  changeAccounts (Accounts.update key change (isFirstAdmin s admin)) key.username change.document

def deleteAccount (s : Settings) (admin : Accounts.RoleEntry) (key : Accounts.RoleKey)
    (completely : Bool) (today : Date) : Action TaskRecord :=
  let superuser := isFirstAdmin s admin
  changeAccounts (if completely then Accounts.remove key superuser
    else Accounts.deactivate key superuser today) key.username (.object [])

def roleOfToken (s : Settings) (now : Moment) (token : Token) : Action Accounts.RoleEntry := do
  Office.ofExcept (currentRole s.secretKey (← tables) now token)

def adminOfToken (s : Settings) (now : Moment) (token : Token) : Action Accounts.RoleEntry := do
  Office.ofExcept (currentAdmin s.secretKey (← tables) now token)

/-- A request of an admin to create an account. The form is read before the token. -/
def createRequest (s : Settings) (now : Moment) (token : Token) (form : List (String × Value)) :
    Action TaskRecord := do
  let a ← Office.ofExcept (Accounts.NewAccount.ofMembers form)
  createAccount s (← adminOfToken s now token) a

/-- A request of an admin to change an account. The changes are read before the token, and which
role is meant after it. -/
def updateRequest (s : Settings) (now : Moment) (token : Token)
    (role changes : List (String × Value)) : Action TaskRecord := do
  let change ← Office.ofExcept (Accounts.AccountChange.ofMembers changes)
  let admin ← adminOfToken s now token
  let key ← Office.ofExcept (Accounts.RoleKey.ofMembers role)
  updateAccount s admin key change

/-- A request of an admin to delete a role. Which one is read after the token. -/
def deleteRequest (s : Settings) (now : Moment) (token : Token) (role : List (String × Value))
    (completely : Bool) : Action TaskRecord := do
  let admin ← adminOfToken s now token
  let key ← Office.ofExcept (Accounts.RoleKey.ofMembers role)
  deleteAccount s admin key completely now.date

end SheetIntake.Service
