import SheetIntake.Accounts.Operations
import SheetIntake.Service.Settings

/-!
# Tokens

A token carries claims and is signed with a key by an algorithm. Whoever logs in gets a token with
their username, their role, and the moment at which it expires. A request with a token is made by
the role that the token names, if the token is in order and the role is active.
-/

namespace SheetIntake.Service

/-- A token: claims that were signed, or a text that is no token. -/
inductive Token where
  | signed (algorithm key : String) (claims : List (String × Value))
  | malformed (text : String)

namespace Token

def algorithm : String :=
  "HS256"

def header : Value :=
  .object [("alg", .str algorithm), ("typ", .str "JWT")]

def roleClaims (e : Accounts.RoleEntry) (expiry : Moment) : List (String × Value) :=
  [("exp", .int expiry.seconds), ("username", .str e.username), ("rol", .str e.role.name)]

def issue (key : String) (e : Accounts.RoleEntry) (expiry : Moment) : Token :=
  .signed algorithm key (roleClaims e expiry)

/-- What is told of a token to whoever gets it. -/
def document (t : Token) : Value :=
  let claims := match t with
    | .signed _ _ claims => .object claims
    | .malformed _ => .null
  .object [("token_type", .str "bearer"), ("claims", claims), ("header", header)]

def mayShowInteger : Value → Bool
  | .null | .list _ | .object _ => false
  | _ => true

def expiry (claims : List (String × Value)) : Except Fault (Option Int) :=
  match Assoc.get? "exp" claims with
  | none => .ok none
  | some v =>
    match Form.integer? v with
    | some n => .ok (some n)
    | none => .error (if mayShowInteger v then .malformedToken else .wrongKind)

/-- The claims of a token that was signed by the service and has not expired. -/
def claims (key : String) (now : Moment) : Token → Except Fault (List (String × Value))
  | .malformed _ => .error .malformedToken
  | .signed a k claims =>
    if a ≠ algorithm then .error .wrongAlgorithm
    else if k ≠ key then .error .wrongSignature
    else do
      match ← expiry claims with
      | some second => if second < now.seconds then throw .expiredToken else return claims
      | none => return claims

end Token

def noAccess : Fault :=
  .rejected 403 (.str "Could not validate credentials")

def currentRole (key : String) (t : Accounts.Tables) (now : Moment) (token : Token) :
    Except Fault Accounts.RoleEntry := do
  let claims ← token.claims key now
  match Accounts.RoleKey.ofMembers claims with
  | .error _ => throw noAccess
  | .ok roleKey =>
    match t.roleOf? roleKey.username roleKey.role true with
    | none => throw noAccess
    | some entry =>
      if entry.inactiveSince.isSome then throw (.invalidFields ["inactivity"])
      return entry

def currentAdmin (key : String) (t : Accounts.Tables) (now : Moment) (token : Token) :
    Except Fault Accounts.RoleEntry := do
  let entry ← currentRole key t now token
  if entry.role ≠ .admin then
    throw (.rejected 401 (.str "Unauthorized access, admin role required."))
  return entry

def login (s : Settings) (t : Accounts.Tables) (now : Moment) (form : List (String × Value)) :
    Except Fault Token := do
  let l ← Accounts.Login.ofMembers form
  match ← Accounts.authenticate t l with
  | none => throw (.rejected 401 (.str "Username or password is incorrect"))
  | some entry =>
    return Token.issue s.secretKey entry { seconds := now.seconds + 60 * s.tokenMinutes }

end SheetIntake.Service
