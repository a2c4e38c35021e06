import SheetIntake.Accounts.Operations
import SheetIntake.Service.Settings

/-!
# Start of the service

Before the service starts, it waits until the account database can be reached, and makes sure that
there is a first admin.
-/

namespace SheetIntake.Service

structure Attempts where
  successful : Bool
  tries : Nat
  pauses : Nat
  deriving DecidableEq, Repr

/-- Attempts, at most so many, to reach a server that refuses the first ones. -/
def attempts : Nat → Nat → Attempts
  | 0, _ => { successful := false, tries := 0, pauses := 0 }
  | _ + 1, 0 => { successful := true, tries := 1, pauses := 0 }
  | 1, _ + 1 => { successful := false, tries := 1, pauses := 0 }
  | limit + 2, refusals + 1 =>
    let rest := attempts (limit + 1) refusals
    { rest with tries := rest.tries + 1, pauses := rest.pauses + 1 }

def databaseTries : Nat :=
  300

def pauseSeconds : Nat :=
  1

/-- Waits for an account database that refuses the first connections. -/
def awaitDatabase (refusals : Nat) : Attempts :=
  attempts databaseTries refusals

def Attempts.result (a : Attempts) : Except Fault Unit :=
  if a.successful then .ok () else .error .retriesExhausted

def prepareAccounts (s : Settings) : StateM Accounts.Database Unit :=
  Accounts.ensureAdmin s.firstAdmin s.firstAdminPassword

/-- Does so in a session of its own, which no failure of other sessions concerns. -/
def prepareAccountsApart (s : Settings) (d : Accounts.Database) : Accounts.Database :=
  { ((prepareAccounts s).run { d with failure := none }).2 with failure := d.failure }

/-- A session with the account database: a transaction is open while it is in use, and none is after
it was closed. -/
structure DatabaseSession where
  inTransaction : Bool := false

namespace DatabaseSession

def select (_ : DatabaseSession) (n : Int) : Int × DatabaseSession :=
  (n, { inTransaction := true })

def close (_ : DatabaseSession) : DatabaseSession :=
  { inTransaction := false }

end DatabaseSession

end SheetIntake.Service
