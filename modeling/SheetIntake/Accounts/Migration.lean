import SheetIntake.Decimal.Reader
import SheetIntake.Fault
import SheetIntake.Text.Search

/-!
# Migrations of the account database

There is one revision, which creates the two tables of accounts. A command moves the database up to
or down to a revision, or writes out the statements that would do so. The database keeps its current
revision in a table of its own.

A database is at position zero, before the revision, or at position one, after it.
-/

namespace SheetIntake.Migration

structure TableShape where
  name : String
  columns : List (String × String × Bool)
  primary : List String
  unique : List (String × List String)
  /-- The columns that refer to a table and the columns there. -/
  foreign : List (List String × String × List String)

def TableShape.members (t : TableShape) : List (String × Value) :=
  let texts (names : List String) : Value := .list (names.map .str)
  [("columns", .list (t.columns.map (fun c => .list [.str c.1, .str c.2.1, .bool c.2.2]))),
    ("primary", texts t.primary),
    ("unique", .list (t.unique.map (fun u => .list [.str u.1, texts u.2]))),
    ("foreign", .list (t.foreign.map (fun f => .list [texts f.1, .str f.2.1, texts f.2.2])))]

def versionTable : TableShape :=
  { name := "alembic_version"
    columns := [("version_num", "VARCHAR(32)", false)]
    primary := ["version_num"]
    unique := []
    foreign := [] }

def peopleTable : TableShape :=
  { name := "user_info"
    columns := [("username", "VARCHAR", false), ("name", "VARCHAR", true),
      ("surname", "VARCHAR", true), ("sex", "VARCHAR(1)", true), ("phone", "VARCHAR", true),
      ("email", "VARCHAR", true)]
    primary := ["username"]
    unique := [("user_info_email_key", ["email"]), ("user_info_phone_key", ["phone"])]
    foreign := [] }

def rolesTable : TableShape :=
  { name := "user_roles"
    columns := [("id", "INTEGER", false), ("username", "VARCHAR", false),
      ("rol", "VARCHAR", false), ("password", "VARCHAR", false), ("is_active", "BOOLEAN", false),
      ("inactivity", "DATE", true)]
    primary := ["id"]
    unique := [("unique_user_rol", ["username", "rol"])]
    foreign := [(["username"], "user_info", ["username"])] }

def revision : String :=
  "89b925dd0650"

/-- A database: whether it has the table of revisions, and whether the revision is applied. -/
structure Database where
  versioned : Bool := false
  applied : Bool := false
  deriving DecidableEq, Repr

namespace Database

def position (d : Database) : Nat :=
  if d.applied then 1 else 0

def tables (d : Database) : List (TableShape × Option (List String)) :=
  (if d.versioned then [(versionTable, some (if d.applied then [revision] else []))] else []) ++
    (if d.applied then [(peopleTable, none), (rolesTable, none)] else [])

/-- The document of a database: its tables, with the rows of those whose rows are shown. -/
def document (d : Database) : Value :=
  .object (d.tables.map (fun t => (t.1.name, .object (t.1.members ++ match t.2 with
    | some rows => [("rows", .list (rows.map .str))]
    | none => []))))

end Database

inductive Direction where
  | up
  | down
  deriving DecidableEq, Repr

/-- The number that a relative target shows: a sign and digits. -/
def relative? (target : String) : Option Int :=
  match target.toList with
  | '+' :: c :: rest => if (c :: rest).all Char.isDigit then Decimal.readInt? target else none
  | '-' :: c :: rest => if (c :: rest).all Char.isDigit then Decimal.readInt? target else none
  | _ => none

/-- The position of a named revision. A revision may be named by its first characters. -/
def namedPosition (name : String) : Except Fault Nat :=
  if name = "base" then .ok 0
  else if name = "head" ∨ name = "heads" ∨ (name ≠ "" ∧ Text.startsWith revision name) then .ok 1
  else .error (.migrationRefused ("Can't locate revision identified by '" ++ name ++ "'"))

/-- The position that a target stands for, seen from a position. A relative target has to point in
the direction of the command and not beyond the last position. -/
def targetPosition (direction : Direction) (position : Nat) (target : String) :
    Except Fault Nat :=
  match relative? target with
  | none => namedPosition target
  | some n =>
    let destination : Int := position + n
    let forward : Bool := match direction with
      | .up => n > 0
      | .down => n < 0
    if forward ∧ 0 ≤ destination ∧ destination ≤ 1 then .ok destination.toNat
    else .error (.migrationRefused ("Relative revision " ++ target ++ " didn't produce " ++
      toString n.natAbs ++ " migrations"))

/-- The position after a command from a position: a command up never goes down, and a command down
cannot aim above the position. -/
def destination (direction : Direction) (position : Nat) (target : String) : Except Fault Nat := do
  let goal ← targetPosition direction position target
  match direction with
  | .up => return max position goal
  | .down =>
    if position < goal then
      throw (.migrationRefused ("Destination " ++ target ++
        " is not a valid downgrade target from current head(s)"))
    return goal

/-- Carries out a command. Unless it is refused, the table of revisions is there afterwards. -/
def run (direction : Direction) (target : String) (d : Database) : Except Fault Database := do
  if Text.contains target ":" then throw (.migrationRefused "Range revision not allowed")
  let position ← destination direction d.position target
  return { versioned := true, applied := position = 1 }

/-! ## Written statements -/

/-- A statement that creates a table, one line for each column and constraint. -/
def creation (name : String) (lines : List String) : String :=
  "CREATE TABLE " ++ name ++ " (\n" ++
    String.intercalate ", \n" (lines.map (fun line => "    " ++ line)) ++ "\n);"

def upgradeStatements : List String :=
  ["-- Running upgrade  -> " ++ revision,
    creation "user_info" ["username VARCHAR NOT NULL", "name VARCHAR", "surname VARCHAR",
      "sex VARCHAR(1)", "phone VARCHAR", "email VARCHAR",
      "CONSTRAINT user_info_pkey PRIMARY KEY (username)",
      "CONSTRAINT user_info_email_key UNIQUE (email)",
      "CONSTRAINT user_info_phone_key UNIQUE (phone)"],
    creation "user_roles" ["id SERIAL NOT NULL", "username VARCHAR NOT NULL",
      "rol VARCHAR NOT NULL", "password VARCHAR NOT NULL", "is_active BOOLEAN NOT NULL",
      "inactivity DATE", "CONSTRAINT user_roles_pkey PRIMARY KEY (id)",
      "CONSTRAINT user_roles_username_fkey FOREIGN KEY(username) REFERENCES user_info (username)",
      "CONSTRAINT unique_user_rol UNIQUE (username, rol)"],
    "INSERT INTO alembic_version (version_num) VALUES ('" ++ revision ++
      "') RETURNING alembic_version.version_num;"]

def versionCreation : String :=
  creation "alembic_version" ["version_num VARCHAR(32) NOT NULL",
    "CONSTRAINT alembic_version_pkc PRIMARY KEY (version_num)"]

def downgradeStatements : List String :=
  ["-- Running downgrade " ++ revision ++ " -> ", "DROP TABLE user_roles;",
    "DROP TABLE user_info;",
    "DELETE FROM alembic_version WHERE alembic_version.version_num = '" ++ revision ++ "';"]

/-- The statements between two positions. The table of revisions is created by the first step up and
dropped at the end where nothing is applied. -/
def statements (start stop : Nat) : List String :=
  (if start = 0 ∧ stop = 1 then versionCreation :: upgradeStatements else []) ++
    (if start = 1 ∧ stop = 0 then downgradeStatements else []) ++
    (if stop = 0 then ["DROP TABLE alembic_version;"] else [])

def written (statements : List String) : String :=
  String.join (statements.map (fun s => s ++ "\n\n"))

/-- Where a written command starts and what it aims at. A command up starts at the base unless it
says otherwise; a command down has to say where it starts. -/
def writtenRange (direction : Direction) (target : String) : Except Fault (String × String) :=
  match Text.splitOn target ':' with
  | [start, stop] => .ok (start, stop)
  | _ =>
    match direction with
    | .up => .ok ("base", target)
    | .down => .error (.migrationRefused "downgrade with --sql requires <fromrev>:<torev>")

/-- Writes out a command: what was written, and whether the command was refused on the way. -/
def write (direction : Direction) (target : String) : String × Except Fault Unit :=
  match writtenRange direction target with
  | .error fault => ("", .error fault)
  | .ok (start, target) =>
    let begun := written ["BEGIN;"]
    let range : Except Fault (Nat × Nat) := do
      let start ← namedPosition start
      let stop ← destination direction start target
      return (start, stop)
    match range with
    | .error fault => (begun, .error fault)
    | .ok (start, stop) => (begun ++ written (statements start stop ++ ["COMMIT;"]), .ok ())

end SheetIntake.Migration
