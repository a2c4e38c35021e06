import SheetIntake.Proofs.PlanViews
import SheetIntake.Proofs.TakenUsernames

/-!
# Operations on accounts that fail on the way

An operation asks for the tables, for the hash of a password, and that changes be committed. Any of
these requests may fail. Nearly all operations commit once, as the last thing that they do, and so
one that fails has changed nothing. The creation of somebody who is not known commits twice, first
the person and then the role: if it fails in between, the person stays.

* `Call.plan`, `Call.run_plan` — the operations as plans of their requests.
* `failed_call_unchanged_iff` — which calls that fail leave the tables as they were.
-/

namespace SheetIntake

namespace Plan

variable {p : Protocol} {α σ : Type}

/-- How servers answer where a request may fail at once, which changes nothing. -/
def faced (servers : Servers p σ) (failure : Option (Nat × Fault)) : Servers p σ := fun request s =>
  match failure with
  | some (0, fault) => (.error fault, s)
  | _ => servers request s

/-- The failure that is to come after one more request. -/
def later : Option (Nat × Fault) → Option (Nat × Fault)
  | some (n + 1, fault) => some (n, fault)
  | _ => none

/-- Carries out a plan of which one request fails, after so many that are answered as usual; none
fails where no failure is given. -/
def runFailing (servers : Servers p σ) : Plan p α → Option (Nat × Fault) → σ → α × σ
  | .done a, _, s => (a, s)
  | .ask request next, failure, s =>
    let (answer, s) := faced servers failure request s
    runFailing servers (next answer) (later failure) s

theorem runFailing_ask (servers : Servers p σ) (request : p.Request)
    (next : Except Fault (p.Answer request) → Plan p α) (failure : Option (Nat × Fault)) (s : σ) :
    runFailing servers (.ask request next) failure s =
      runFailing servers (next (faced servers failure request s).1) (later failure)
        (faced servers failure request s).2 := rfl

@[simp]
theorem runFailing_none (servers : Servers p σ) (plan : Plan p α) (s : σ) :
    runFailing servers plan none s = run servers plan s := by
  induction plan generalizing s with
  | done a => rfl
  | ask request next ih => exact ih _ _

end Plan

namespace Accounts

/-! ## Operations as plans -/

/-- What an operation on accounts asks for. -/
inductive Step where
  | tables
  | hash (password : String)
  | commit (changes : List Change)

def Step.Answer : Step → Type
  | .tables => Tables
  | .hash _ => PasswordHash
  | .commit _ => Unit

/-- The protocol of operations on accounts. -/
abbrev steps : Protocol :=
  { Request := Step, Answer := Step.Answer }

def desk : Servers steps Database
  | .tables, d => (.ok d.tables, d)
  | .hash password, d => (PasswordHash.ofPassword password, d)
  | .commit changes, d => Session.exec (Session.commit changes) d

def readTables : Job steps Tables :=
  Job.ask (p := steps) .tables

def hashed (password : String) : Job steps PasswordHash :=
  Job.ask (p := steps) (.hash password)

/-- Asks that changes be committed, and then tells an outcome. -/
def committed (changes : List Change) (o : Outcome) : Job steps Outcome := do
  Job.ask (p := steps) (.commit changes)
  return o

def grantJob (a : NewAccount) : Job steps Outcome := do
  match (← readTables).roleOf? a.person.username a.role false with
  | none =>
    let password ← hashed a.password
    committed [.addRole a.person.username a.role password]
      { number := 0, message := "User created successfully.", status := 201 }
  | some entry =>
    if entry.active then
      return { number := 2
               message := "Active user with same username and role already exists."
               status := 409 }
    else
      committed [.changeRole entry { entry with active := true }]
        { number := 0, message := "User activated successfully.", status := 200 }

def addPersonJob (a : NewAccount) : Job steps Outcome := do
  match contactProblem? (← readTables) a.person with
  | some outcome => return outcome
  | none =>
    Job.ask (p := steps) (.commit [.addPerson a.person])
    grantJob a

/-- The entry of a role with another password; there has to be one. -/
def withHash (hash : PasswordHash) : Option RoleEntry → Except Fault (Option RoleEntry)
  | some e => .ok (some { e with password := hash })
  | none => .error (.noSuchOperation "NoneType" "password")

def passwordJob (entry : Option RoleEntry) : Option String → Job steps (Option RoleEntry)
  | none => pure entry
  | some password => do
    let hash ← hashed password
    Job.ofExcept (withHash hash entry)

/-- The requests for the entry of a role after a change: the username is set, then the password,
then the role. -/
def changedEntryJob (c : AccountChange) (entry : Option RoleEntry) :
    Job steps (Option RoleEntry) := do
  let named ← Job.ofExcept (changedEntry { username := c.username } entry)
  let secured ← passwordJob named c.password
  Job.ofExcept (changedEntry { role := c.role } secured)

def updateJob (key : RoleKey) (c : AccountChange) (p : Person) : Job steps Outcome := do
  let t ← readTables
  match changeProblem? t c p with
  | some outcome => return outcome
  | none =>
    let entry := t.roleOf? key.username key.role false
    let changed ← changedEntryJob c entry
    committed (.changePerson p (c.person p) :: roleChanges entry changed)
      { number := 0, message := "User updated successfully.", status := 200 }

def deactivateJob (key : RoleKey) (today : Date) : Job steps Outcome := do
  match (← readTables).roleOf? key.username key.role true with
  | none => return { number := 1, message := "User does not exist.", status := 404 }
  | some entry =>
    committed [.changeRole entry { entry with active := false, inactiveSince := some today }]
      { number := 0, message := "User deleted successfully.", status := 200 }

def removeJob (key : RoleKey) : Job steps Outcome := do
  match (← readTables).roleOf? key.username key.role false with
  | none => return { number := 1, message := "User does not exist.", status := 404 }
  | some entry =>
    if entry.active then
      return { number := 3
               message := "Cannot delete active user completely. Deactivate first."
               status := 400 }
    else
      committed [.removeRole entry]
        { number := 0, message := "User deleted completely from system.", status := 200 }

/-- A job to its end: a fault becomes an outcome. -/
def settle (ofFault : Fault → Outcome) (job : Job steps Outcome) : Plan steps Outcome := do
  match ← ExceptT.run job with
  | .ok outcome => return outcome
  | .error fault => return ofFault fault

def Call.plan (superuser : Bool) (t : Tables) : Call → Plan steps Outcome
  | .create a =>
    if a.role = .admin ∧ !superuser then
      .done { number := 1, message := "Cannot create admin user.", status := 403 }
    else
      settle Outcome.ofWriteFault
        (if (t.account? a.person.username false).isSome then grantJob a else addPersonJob a)
  | .update key c =>
    match t.account? key.username false with
    | none => .done { number := 1, message := "User does not exist.", status := 404 }
    | some account =>
      if !superuser ∧ account.roles.any (fun r => r.1 = .admin) then
        .done { number := 2, message := "Cannot edit administrator user.", status := 403 }
      else settle Outcome.ofWriteFault (updateJob key c account.person)
  | .deactivate key today =>
    if key.role = .admin ∧ !superuser then .done adminProtected
    else settle (Outcome.ofDeleteFault "database") (deactivateJob key today)
  | .remove key =>
    if key.role = .admin ∧ !superuser then .done adminProtected
    else settle (Outcome.ofDeleteFault "foreign key") (removeJob key)

def Call.runFailing (superuser : Bool) (failure : Option (Nat × Fault)) (call : Call)
    (d : Database) : Outcome × Database :=
  (call.plan superuser d.tables).runFailing desk failure d

/-! ## Plans that commit once -/

/-- A request that changes nothing. -/
def Step.Looks : Step → Prop
  | .commit _ => False
  | _ => True

variable {request : Step}

theorem desk_of_looks (h : request.Looks) (d : Database) : (desk request d).2 = d := by
  cases request with
  | commit changes => exact h.elim
  | tables | hash password => rfl

theorem faced_of_looks (h : request.Looks) (failure : Option (Nat × Fault)) (d : Database) :
    (Plan.faced desk failure request d).2 = d := by
  unfold Plan.faced
  split
  · rfl
  · exact desk_of_looks h d

/-- A plan that commits at most once, as its last request, and tells success then. -/
inductive Atomic : Plan steps Outcome → Prop where
  | done (o : Outcome) : Atomic (.done o)
  | look {request : Step} {next : Except Fault request.Answer → Plan steps Outcome}
      (hlooks : request.Looks) (hnext : ∀ answer, Atomic (next answer)) : Atomic (.ask request next)
  | commit {changes : List Change}
      {next : Except Fault (Step.Answer (.commit changes)) → Plan steps Outcome}
      (hok : ∃ o, next (.ok ()) = .done o ∧ o.number = 0)
      (herror : ∀ fault, ∃ o, next (.error fault) = .done o) : Atomic (.ask (.commit changes) next)

theorem faced_commit (failure : Option (Nat × Fault)) (changes : List Change) (d : Database) :
    (∃ fault d', Plan.faced desk failure (.commit changes) d = (.error fault, d')
        ∧ d'.tables = d.tables)
      ∨ ∃ d', Plan.faced desk failure (.commit changes) d = (.ok (), d') := by
  unfold Plan.faced
  split
  · exact .inl ⟨_, d, rfl, rfl⟩
  · rcases Session.exec_commit_cases changes d with ⟨t, -, hexec⟩ | ⟨fault, d', hexec, htables⟩
    · exact .inr ⟨_, hexec⟩
    · exact .inl ⟨fault, d', hexec, htables⟩

variable {failure : Option (Nat × Fault)} {d d' : Database} {o : Outcome}

/-- What fails of such a plan changes nothing, whichever request fails. -/
theorem Atomic.unchanged {plan : Plan steps Outcome} (h : Atomic plan)
    (hrun : plan.runFailing desk failure d = (o, d')) (hfailed : o.number ≠ 0) :
    d'.tables = d.tables := by
  induction h generalizing failure d with
  | done o => exact (Prod.mk.inj hrun).2 ▸ rfl
  | @look request next hlooks hnext ih =>
    exact (ih _ hrun).trans (congrArg Database.tables (faced_of_looks hlooks failure d))
  | @commit changes next hok herror =>
    rw [Plan.runFailing_ask] at hrun
    rcases faced_commit failure changes d with ⟨fault, d₁, hfaced, htables⟩ | ⟨d₁, hfaced⟩
    · obtain ⟨o', ho'⟩ := herror fault
      rw [hfaced, ho'] at hrun
      exact (Prod.mk.inj hrun).2 ▸ htables
    · obtain ⟨o', ho', hzero⟩ := hok
      rw [hfaced, ho'] at hrun
      exact absurd ((Prod.mk.inj hrun).1 ▸ hzero) hfailed

/-! ## The plans are those of the operations -/

/-- A job asks for what a session does. -/
def Implements {α : Type} (job : Job steps α) (session : Session α) : Prop :=
  ∀ d, Job.run desk job d = Session.exec session d

/-- A job asks for what a session does, and only looks. -/
structure Reads {α : Type} (job : Job steps α) (session : Session α) : Prop where
  implements : Implements job session
  looks : job.Asks Step.Looks

section Implements

variable {α β : Type} {job : Job steps α} {session : Session α}

theorem Implements.bind (h : Implements job session) {f : α → Job steps β} {g : α → Session β}
    (hf : ∀ a, Implements (f a) (g a)) : Implements (job >>= f) (session >>= g) := by
  intro d
  rw [Job.run_bind, Session.exec_bind, h d]
  rcases Session.exec session d with ⟨fault | a, d'⟩
  · rfl
  · exact hf a d'

theorem implements_pure (a : α) : Implements (pure a) (pure a) := fun _ => rfl

theorem implements_commit (changes : List Change) :
    Implements (Job.ask (p := steps) (.commit changes)) (Session.commit changes) := fun _ => rfl

theorem reads_tables : Reads readTables Session.tables := ⟨fun _ => rfl, Job.asks_ask trivial⟩

theorem reads_ofExcept (result : Except Fault α) :
    Reads (Job.ofExcept result) (Session.ofExcept result) :=
  ⟨fun _ => rfl, Job.asks_ofExcept result⟩

theorem reads_hashed (password : String) :
    Reads (hashed password) (Session.ofExcept (PasswordHash.ofPassword password)) :=
  ⟨fun _ => rfl, Job.asks_ask trivial⟩

theorem reads_bind {result : Except Fault α} (h : Reads job (Session.ofExcept result))
    {f : α → Job steps β} {g : α → Except Fault β}
    (hf : ∀ a, Reads (f a) (Session.ofExcept (g a))) :
    Reads (job >>= f) (Session.ofExcept (result >>= g)) := by
  refine ⟨fun d => ?_, h.looks.bind fun a => (hf a).looks⟩
  rw [Job.run_bind, h.implements d, Session.exec_ofExcept]
  cases result with
  | error fault => rfl
  | ok a => exact (hf a).implements d

end Implements

def withPassword (entry : Option RoleEntry) : Option String → Except Fault (Option RoleEntry)
  | none => .ok entry
  | some password => PasswordHash.ofPassword password >>= fun hash => withHash hash entry

theorem changedEntry_eq (c : AccountChange) (entry : Option RoleEntry) :
    changedEntry c entry = (do
      let named ← changedEntry { username := c.username } entry
      let secured ← withPassword named c.password
      changedEntry { role := c.role } secured) := by
  obtain ⟨username, name, surname, sex, phone, email, password, role⟩ := c
  cases password with
  | none => cases username <;> cases entry <;> cases role <;> rfl
  | some password =>
    unfold changedEntry withPassword
    dsimp only
    cases PasswordHash.ofPassword password <;> cases username <;> cases entry <;> cases role <;> rfl

theorem reads_changedEntryJob (c : AccountChange) (entry : Option RoleEntry) :
    Reads (changedEntryJob c entry) (Session.ofExcept (changedEntry c entry)) := by
  rw [changedEntry_eq]
  refine reads_bind (reads_ofExcept _) (fun named => reads_bind ?_ (fun _ => reads_ofExcept _))
  cases c.password with
  | none => exact reads_ofExcept (.ok named)
  | some password => exact reads_bind (reads_hashed password) (fun _ => reads_ofExcept _)

/-! ## Operations that commit once -/

/-- A job that asks for what a session does and commits at most once, at its end. -/
structure Single (job : Job steps Outcome) (session : Session Outcome) : Prop where
  implements : Implements job session
  atomic : ∀ ofFault, Atomic (settle ofFault job)

namespace Single

theorem pure (o : Outcome) : Single (pure o) (pure o) :=
  ⟨implements_pure o, fun _ => .done _⟩

theorem committed (changes : List Change) (hzero : o.number = 0) :
    Single (committed changes o) (do Session.commit changes; return o) :=
  ⟨(implements_commit changes).bind (fun _ => implements_pure o),
    fun ofFault => .commit ⟨o, rfl, hzero⟩ (fun fault => ⟨ofFault fault, rfl⟩)⟩

theorem after {α : Type} {job : Job steps α} {session : Session α} (h : Reads job session)
    {f : α → Job steps Outcome} {g : α → Session Outcome} (hf : ∀ a, Single (f a) (g a)) :
    Single (job >>= f) (session >>= g) := by
  refine ⟨h.implements.bind (fun a => (hf a).implements), fun ofFault => ?_⟩
  have hplan {plan : Plan steps (Except Fault α)} (h : plan.Asks Step.Looks) :
      Atomic (settle ofFault (ExceptT.mk (plan >>= ExceptT.bindCont f))) := by
    induction h with
    | done result =>
      cases result with
      | error fault => exact .done _
      | ok a => exact (hf a).atomic ofFault
    | ask hlooks _ ih => exact .look hlooks ih
  exact hplan h.looks

end Single

theorem single_grantJob (a : NewAccount) : Single (grantJob a) (createRole a) := by
  refine .after reads_tables (fun t => ?_)
  cases t.roleOf? a.person.username a.role false with
  | none => exact .after (reads_hashed _) (fun _ => .committed _ rfl)
  | some entry =>
    dsimp only
    split_ifs
    · exact .pure _
    · exact .committed _ rfl

theorem single_updateJob (key : RoleKey) (c : AccountChange) (p : Person) :
    Single (updateJob key c p) (updateAccount key c p) := by
  refine .after reads_tables (fun t => ?_)
  cases changeProblem? t c p with
  | some outcome => exact .pure _
  | none => exact .after (reads_changedEntryJob c _) (fun changed => .committed _ rfl)

theorem single_deactivateJob (key : RoleKey) (today : Date) :
    Single (deactivateJob key today) (deactivateRole key today) := by
  refine .after reads_tables (fun t => ?_)
  cases t.roleOf? key.username key.role true with
  | none => exact .pure _
  | some entry => exact .committed _ rfl

theorem single_removeJob (key : RoleKey) : Single (removeJob key) (removeRole key) := by
  refine .after reads_tables (fun t => ?_)
  cases t.roleOf? key.username key.role false with
  | none => exact .pure _
  | some entry =>
    dsimp only
    split_ifs
    · exact .pure _
    · exact .committed _ rfl

theorem implements_addPersonJob (a : NewAccount) :
    Implements (addPersonJob a) (createAccount a false) := by
  refine reads_tables.implements.bind (fun t => ?_)
  cases contactProblem? t a.person with
  | some outcome => exact implements_pure _
  | none => exact (implements_commit _).bind (fun _ => (single_grantJob a).implements)

theorem run_settle {job : Job steps Outcome} {session : Session Outcome}
    (h : Implements job session) (ofFault : Fault → Outcome) (d : Database) :
    Plan.run desk (settle ofFault job) d = StateT.run (settled session ofFault) d := by
  unfold settle
  rw [Plan.run_bind, run_settled, ← h d]
  unfold Job.run
  rcases Plan.run desk (ExceptT.run job) d with ⟨fault | outcome, d'⟩ <;> rfl

/-- A call commits once, unless it is the creation of somebody who is not known. -/
def Call.Commits (superuser : Bool) (t : Tables) (call : Call) : Prop :=
  Atomic (call.plan superuser t) ∨ ∃ a, call = .create a ∧ (a.role = .admin → superuser)
    ∧ call.plan superuser t = settle Outcome.ofWriteFault (addPersonJob a)

/-- Where no request fails, the plan of a call does what the call does. -/
theorem Call.plan_spec (superuser : Bool) (call : Call) (d : Database) :
    Plan.run desk (call.plan superuser d.tables) d = call.run superuser d
      ∧ call.Commits superuser d.tables := by
  unfold Call.Commits
  have hsingle {job : Job steps Outcome} {session : Session Outcome} (h : Single job session)
      (ofFault : Fault → Outcome) := And.intro (run_settle h.implements ofFault d) (h.atomic ofFault)
  cases call with
  | create a =>
    rw [Call.plan, Call.run, Accounts.create]
    split_ifs with hadmin hknown
    · exact ⟨rfl, .inl (.done _)⟩
    · refine (hsingle (single_grantJob a) _).imp (fun h => h.trans ?_) .inl
      rw [StateT.run_bind, StateT.run_get, pure_bind, hknown]
      rfl
    · refine ⟨(run_settle (implements_addPersonJob a) _ d).trans ?_,
        .inr ⟨a, rfl, by simpa using hadmin, rfl⟩⟩
      rw [StateT.run_bind, StateT.run_get, pure_bind, Bool.eq_false_iff.mpr hknown]
  | update key c =>
    rw [Call.plan, Call.run, Accounts.update, StateT.run_bind, StateT.run_get, pure_bind]
    cases d.tables.account? key.username false with
    | none => exact ⟨rfl, .inl (.done _)⟩
    | some account =>
      dsimp only
      split_ifs
      · exact ⟨rfl, .inl (.done _)⟩
      · exact (hsingle (single_updateJob key c _) _).imp_right .inl
  | deactivate key today =>
    rw [Call.plan, Call.run, Accounts.deactivate]
    split_ifs
    · exact ⟨rfl, .inl (.done _)⟩
    · exact (hsingle (single_deactivateJob key today) _).imp_right .inl
  | remove key =>
    rw [Call.plan, Call.run, Accounts.remove]
    split_ifs
    · exact ⟨rfl, .inl (.done _)⟩
    · exact (hsingle (single_removeJob key) _).imp_right .inl

theorem Call.run_plan (superuser : Bool) (call : Call) (d : Database) :
    call.runFailing superuser none d = call.run superuser d := by
  unfold Call.runFailing
  rw [Plan.runFailing_none, (Call.plan_spec superuser call d).1]

theorem Call.plan_cases (superuser : Bool) (t : Tables) (call : Call) : call.Commits superuser t :=
  (Call.plan_spec superuser call { tables := t }).2

/-! ## The operation that commits twice -/

/-- A creation whose first commit succeeds: it is allowed, nobody has the username or a contact of
the new person, and the failure comes after that commit, if there is one. -/
structure NewAccount.Enters (a : NewAccount) (superuser : Bool) (failure : Option (Nat × Fault))
    (d : Database) : Prop where
  allowed : a.role = .admin → superuser = true
  wellFormed : a.person.WellFormed
  unknown : d.tables.person? a.person.username = none
  unshared : d.tables.Unshared a.person
  accepts : d.failure = none
  late : ∀ n fault, failure = some (n, fault) → 2 ≤ n

def Tables.withPerson (t : Tables) (p : Person) : Tables := { t with people := t.people ++ [p] }

theorem withPerson_ne (t : Tables) (p : Person) : t.withPerson p ≠ t := by
  intro heq
  have hlength := congrArg (·.people.length) heq
  simp [Tables.withPerson] at hlength

theorem faced_of_later (h : ∀ fault, failure ≠ some (0, fault)) :
    Plan.faced desk failure request d = desk request d := by
  unfold Plan.faced
  split
  · next fault => exact absurd rfl (h fault)
  · rfl

theorem faced_eq_ok {answer : request.Answer}
    (h : Plan.faced desk failure request d = (.ok answer, d')) :
    (∀ fault, failure ≠ some (0, fault)) ∧ desk request d = (.ok answer, d') := by
  by_cases hnow : ∃ fault, failure = some (0, fault)
  · obtain ⟨fault, rfl⟩ := hnow
    cases h
  · exact ⟨not_exists.mp hnow, (faced_of_later (not_exists.mp hnow)).symm.trans h⟩

theorem tables_of_faced_error {fault : Fault}
    (h : Plan.faced desk failure request d = (.error fault, d')) : d'.tables = d.tables := by
  have hlook (hlooks : request.Looks) : d'.tables = d.tables := by
    rw [← faced_of_looks hlooks failure d, h]
  cases request with
  | commit changes =>
    rcases faced_commit failure changes d with ⟨_, d₁, hfaced, htables⟩ | ⟨d₁, hfaced⟩
    · exact (Prod.mk.inj (hfaced.symm.trans h)).2 ▸ htables
    · cases h.symm.trans hfaced
  | tables | hash password => exact hlook trivial

theorem later_eq_some {n : Nat} {fault : Fault} :
    Plan.later failure = some (n, fault) ↔ failure = some (n + 1, fault) := by
  rcases failure with _ | ⟨_ | m, _⟩ <;> simp [Plan.later]

theorem desk_addPerson_of_free {p : Person} (hp : d.tables.person? p.username = none)
    (h : d.tables.Unshared p) (hd : d.failure = none) :
    desk (.commit [.addPerson p]) d = (.ok (), { d with tables := d.tables.withPerson p }) := by
  change Session.exec (Session.commit [.addPerson p]) d = _
  rw [Session.exec_commit, List.foldlM_cons, Tables.apply, insertPerson_of_free hp h, hd]
  rfl

theorem desk_addPerson_eq_ok {p : Person} (h : desk (.commit [.addPerson p]) d = (.ok (), d')) :
    d.failure = none ∧ d.tables.person? p.username = none ∧ d'.tables = d.tables.withPerson p := by
  change Session.exec (Session.commit [.addPerson p]) d = _ at h
  rw [Session.exec_commit, List.foldlM_cons, Tables.apply] at h
  cases hinsert : d.tables.insertPerson p with
  | error fault =>
    rw [hinsert] at h
    cases h
  | ok t =>
    obtain ⟨hapart, rfl⟩ := Tables.insertPerson_eq_ok hinsert
    rw [hinsert] at h
    cases hd : d.failure with
    | some failure =>
      rw [hd] at h
      cases h
    | none =>
      rw [hd] at h
      refine ⟨rfl, ?_, (Prod.mk.inj h).2 ▸ rfl⟩
      exact List.find?_eq_none.mpr (by simpa using fun q hq heq => (hapart q hq).1 heq.symm)

variable {a : NewAccount} {superuser : Bool}

theorem NewAccount.Enters.not_within (h : a.Enters superuser failure d) {n : Nat} (hn : n < 2)
    (fault : Fault) : failure ≠ some (n, fault) :=
  fun heq => absurd (h.late n fault heq) (Nat.not_le.mpr hn)

/-- A job that asks first comes to its end at once if that fails, without a change. -/
theorem runFailing_settle_ask {f : request.Answer → Job steps Outcome} {ofFault : Fault → Outcome}
    (hrun : (settle ofFault (Job.ask (p := steps) request >>= f)).runFailing desk failure d =
      (o, d')) :
    (∃ fault, (Plan.faced desk failure request d).1 = .error fault ∧ d'.tables = d.tables)
      ∨ ∃ answer d₁, Plan.faced desk failure request d = (.ok answer, d₁)
        ∧ (settle ofFault (f answer)).runFailing desk (Plan.later failure) d₁ = (o, d') := by
  change Plan.runFailing desk (.ask request _) failure d = _ at hrun
  rw [Plan.runFailing_ask] at hrun
  rcases hfaced : Plan.faced desk failure request d with ⟨fault | answer, d₁⟩
  · rw [hfaced] at hrun
    exact .inl ⟨fault, rfl, (Prod.mk.inj hrun).2 ▸ tables_of_faced_error hfaced⟩
  · rw [hfaced] at hrun
    exact .inr ⟨answer, d₁, rfl, hrun⟩

/-- The creation of somebody who is not known, where it fails: the person stays if the first commit
succeeds, and otherwise nothing changes. -/
theorem runFailing_addPersonJob (hallowed : a.role = .admin → superuser)
    (hrun : (settle Outcome.ofWriteFault (addPersonJob a)).runFailing desk failure d = (o, d'))
    (hfailed : o.number ≠ 0) : ¬ a.Enters superuser failure d ∧ d'.tables = d.tables
      ∨ a.Enters superuser failure d ∧ d'.tables = d.tables.withPerson a.person := by
  rcases runFailing_settle_ask hrun with ⟨fault, hfaced, htables⟩ | ⟨t, d₁, hfaced, hrun₁⟩
  · refine .inl ⟨fun h => ?_, htables⟩
    rw [faced_of_later (h.not_within (by decide))] at hfaced
    cases hfaced.symm
  obtain ⟨hfirst, hdesk⟩ := faced_eq_ok hfaced
  obtain ⟨rfl, rfl⟩ : d.tables = t ∧ d = d₁ :=
    ⟨Except.ok.inj (Prod.mk.inj hdesk).1, (Prod.mk.inj hdesk).2⟩
  cases hcontact : contactProblem? d.tables a.person with
  | some problem =>
    rw [hcontact] at hrun₁
    refine .inl ⟨fun h => ?_, (Prod.mk.inj hrun₁).2 ▸ rfl⟩
    rcases contactProblem?_cases h.wellFormed with ⟨hnone, -⟩ | ⟨-, -, -, hshared⟩
    · cases hnone.symm.trans hcontact
    · exact hshared h.unshared
  | none =>
    rw [hcontact] at hrun₁
    have hwell := wellFormed_of_contactProblem? hcontact
    have hunshared : d.tables.Unshared a.person := by
      rcases contactProblem?_cases hwell with ⟨-, hunshared⟩ | ⟨problem, hproblem, -⟩
      · exact hunshared
      · cases hproblem.symm.trans hcontact
    rcases runFailing_settle_ask hrun₁ with ⟨fault, hcommit, htables⟩ | ⟨_, d₂, hcommit, hrun₂⟩
    · refine .inl ⟨fun h => ?_, htables⟩
      rw [faced_of_later, desk_addPerson_of_free h.unknown h.unshared h.accepts] at hcommit
      · cases hcommit.symm
      · exact fun fault hlater => h.not_within (n := 1) (by decide) fault (later_eq_some.mp hlater)
    · obtain ⟨hsecond, hdesk₂⟩ := faced_eq_ok hcommit
      obtain ⟨haccepts, hunknown, htables⟩ := desk_addPerson_eq_ok hdesk₂
      refine .inr ⟨⟨hallowed, hwell, hunknown, hunshared, haccepts, ?_⟩, ?_⟩
      · intro n fault hfailure
        have hzero : n ≠ 0 := fun h => hfirst fault (h ▸ hfailure)
        have hone : n ≠ 1 := by
          rintro rfl
          exact hsecond fault (later_eq_some.mpr hfailure)
        omega
      · exact (((single_grantJob a).atomic _).unchanged hrun₂ hfailed).trans htables

theorem NewAccount.Enters.plan_eq (h : a.Enters superuser failure d) :
    (Call.create a).plan superuser d.tables = settle Outcome.ofWriteFault (addPersonJob a) := by
  rw [Call.plan, if_neg (by simpa using h.allowed), Tables.account?_eq_none h.unknown]
  rfl

/-- A call of which at most one request fails, whichever it is. If it fails, it has changed nothing,
unless it was to create somebody who was not known and came beyond its first commit: the new person
stays then, without a role. -/
theorem failed_call_unchanged_iff {call : Call} {superuser : Bool} {failure : Option (Nat × Fault)}
    {d d' : Database} {o : Outcome} (hrun : call.runFailing superuser failure d = (o, d'))
    (hfailed : o.number ≠ 0) :
    (d'.tables = d.tables ↔ ¬ ∃ a, call = .create a ∧ a.Enters superuser failure d)
      ∧ (∀ a, call = .create a → a.Enters superuser failure d →
        d'.tables = { d.tables with people := d.tables.people ++ [a.person] })
      ∧ (failure = none → call.run superuser d = (o, d')) := by
  have hstays : ∀ a, call = .create a → a.Enters superuser failure d →
      d'.tables = d.tables.withPerson a.person := by
    rintro a rfl henters
    unfold Call.runFailing at hrun
    rw [henters.plan_eq] at hrun
    rcases runFailing_addPersonJob henters.allowed hrun hfailed with ⟨hnot, -⟩ | ⟨-, htables⟩
    · exact absurd henters hnot
    · exact htables
  refine ⟨⟨?_, fun hnone => ?_⟩, hstays, ?_⟩
  · rintro hsame ⟨a, hcall, henters⟩
    exact withPerson_ne _ _ ((hstays a hcall henters).symm.trans hsame)
  · rcases Call.plan_cases superuser d.tables call with hplan | ⟨a, hcall, hallowed, hplan⟩
    · exact hplan.unchanged hrun hfailed
    · unfold Call.runFailing at hrun
      rw [hplan] at hrun
      rcases runFailing_addPersonJob hallowed hrun hfailed with ⟨-, htables⟩ | ⟨henters, -⟩
      · exact htables
      · exact absurd ⟨a, hcall, henters⟩ hnone
  · rintro rfl
    rw [← Call.run_plan, hrun]

theorem enters_bob : (bob "5551234567").Enters false (some (4, .commitFailed "disk full")) {} where
  allowed := by decide
  wellFormed := ⟨nofun, fun n hn => by cases Option.some.inj hn; decide⟩
  unknown := rfl
  unshared := nofun
  accepts := rfl
  late := fun n fault hfailure => by
    cases hfailure
    decide

/-- A creation that fails at its second commit leaves the person. -/
theorem second_commit_leaves_person :
    ∃ o d, Call.runFailing false (some (4, .commitFailed "disk full"))
        (.create (bob "5551234567")) {} = (o, d)
      ∧ o.number ≠ 0 ∧ d.tables = { people := [(bob "5551234567").person] } := by
  have hnumber : (Call.runFailing false (some (4, .commitFailed "disk full"))
      (.create (bob "5551234567")) {}).1.number ≠ 0 := by decide
  have hstays := (failed_call_unchanged_iff rfl hnumber).2.1
  exact ⟨_, _, rfl, hnumber, hstays _ rfl enters_bob⟩

def bobUnhashed : NewAccount :=
  { bob "5551234567" with password := "p\x00w" }

/-- A password that cannot be hashed fails the creation and leaves the person. -/
theorem unhashed_password_leaves_person :
    (Call.run false (.create bobUnhashed) {}).1.number = 500
      ∧ (Call.run false (.create bobUnhashed) {}).2.tables.people = [bobUnhashed.person] := by
  decide

end Accounts

end SheetIntake
