import SheetIntake.Proofs.AccountTables

/-!
# What the operations on accounts commit

An operation looks at the tables, and then it commits changes or tells a refusal. `Call.Makes`
lists, for each operation, the changes that it makes and what it has checked before; nothing more has
to be known about the operations to see what many calls together do to the tables.

* `Session.exec_bind`, `Session.exec_commit_cases` — a session step by step; a commit makes all its
  changes or none.
* `Call.leads` — every call leads from the tables to the tables with changes of `Call.Makes`, and it
  tells success exactly when it made them all.
-/

namespace SheetIntake.Accounts

open Tables (apply)

namespace Session

variable {α β : Type}

def exec (x : Session α) (d : Database) : Except Fault α × Database :=
  StateT.run (ExceptT.run x) d

@[simp]
theorem exec_ofExcept (r : Except Fault α) (d : Database) : exec (ofExcept r) d = (r, d) := rfl

@[simp]
theorem exec_tables (d : Database) : exec tables d = (.ok d.tables, d) := rfl

theorem exec_bind (x : Session α) (f : α → Session β) (d : Database) :
    exec (x >>= f) d = match exec x d with
      | (.ok a, d') => exec (f a) d'
      | (.error fault, d') => (.error fault, d') := by
  unfold exec
  show StateT.run (ExceptT.run x >>= ExceptT.bindCont f) d = _
  rw [StateT.run_bind]
  cases StateT.run (ExceptT.run x) d with
  | mk r d' => cases r <;> rfl

theorem exec_commit (changes : List Change) (d : Database) :
    exec (commit changes) d = match changes.foldlM apply d.tables, d.failure with
      | .error fault, _ => (.error fault, d)
      | .ok _, some failure => (.error failure.fault, { d with failure := none })
      | .ok tables, none => (.ok (), { d with tables }) := by
  unfold commit
  show exec (ofExcept (changes.foldlM apply d.tables) >>= _) d = _
  obtain ⟨t, failure⟩ := d
  cases changes.foldlM apply t with
  | error fault => rfl
  | ok t' => cases failure <;> rfl

end Session

def told (ofFault : Fault → Outcome) : Except Fault Outcome × Database → Outcome × Database
  | (.ok o, d) => (o, d)
  | (.error fault, d) => (ofFault fault, d)

theorem run_settled (x : Session Outcome) (ofFault : Fault → Outcome) (d : Database) :
    StateT.run (settled x ofFault) d = told ofFault (x.exec d) := by
  unfold settled Session.exec
  rw [StateT.run_bind]
  cases StateT.run (ExceptT.run x) d with
  | mk r d' => cases r <;> rfl

/-! ## Outcomes that are no success -/

theorem Outcome.number_ofWriteFault (fault : Fault) : (Outcome.ofWriteFault fault).number ≠ 0 := by
  cases fault
  case constraintViolated text =>
    unfold ofWriteFault Violation.ofText
    dsimp only
    split_ifs <;> simp
  all_goals exact Nat.succ_ne_zero _

theorem Outcome.number_ofDeleteFault (rules : String) (fault : Fault) :
    (Outcome.ofDeleteFault rules fault).number ≠ 0 := by
  cases fault <;> exact Nat.succ_ne_zero _

variable {t : Tables}

theorem number_contactProblem {p : Person} {o : Outcome} (h : contactProblem? t p = some o) :
    o.number ≠ 0 := by
  unfold contactProblem? at h
  dsimp only at h
  split_ifs at h <;> exact Option.some.inj h ▸ Nat.succ_ne_zero _

variable {c : AccountChange}

theorem number_changeProblem {p : Person} {o : Outcome} (h : changeProblem? t c p = some o) :
    o.number ≠ 0 := by
  unfold changeProblem? at h
  dsimp only at h
  split_ifs at h <;> exact Option.some.inj h ▸ Nat.succ_ne_zero _

/-! ## Calls -/

inductive Call where
  | create (a : NewAccount)
  | update (key : RoleKey) (c : AccountChange)
  | deactivate (key : RoleKey) (today : Date)
  | remove (key : RoleKey)

def Call.run (superuser : Bool) : Call → Database → Outcome × Database
  | .create a => (Accounts.create a superuser).run
  | .update key c => (Accounts.update key c superuser).run
  | .deactivate key today => (Accounts.deactivate key superuser today).run
  | .remove key => (Accounts.remove key superuser).run

inductive RoleGrant (t : Tables) (a : NewAccount) : Change → Prop where
  | added {password : PasswordHash} (habsent : t.roleOf? a.person.username a.role false = none)
      (hpassword : PasswordHash.ofPassword a.password = .ok password) :
      RoleGrant t a (.addRole a.person.username a.role password)
  | activated {e : RoleEntry} (he : t.roleOf? a.person.username a.role false = some e)
      (hinactive : e.active = false) : RoleGrant t a (.changeRole e { e with active := true })

def roleChanges : Option RoleEntry → Option RoleEntry → List Change
  | some old, some new => [.changeRole old new]
  | _, _ => []

/-- The changes that a call makes, and whether it succeeds. -/
inductive Call.Makes (superuser : Bool) (t : Tables) : Call → Bool → List Change → Prop where
  | nothing {call : Call} : Makes superuser t call false []
  | person {a : NewAccount} (hadmin : a.role = .admin → superuser = true)
      (hnew : t.account? a.person.username false = none)
      (hcontacts : contactProblem? t a.person = none) :
      Makes superuser t (.create a) false [.addPerson a.person]
  | newRole {a : NewAccount} {c : Change} (hadmin : a.role = .admin → superuser = true)
      (hnew : t.account? a.person.username false = none)
      (hcontacts : contactProblem? t a.person = none) (hgrant : RoleGrant t a c) :
      Makes superuser t (.create a) true [.addPerson a.person, c]
  | role {a : NewAccount} {c : Change} (hadmin : a.role = .admin → superuser = true)
      (hknown : (t.account? a.person.username false).isSome = true)
      (hgrant : RoleGrant t a c) : Makes superuser t (.create a) true [c]
  | update {key : RoleKey} {c : AccountChange} {account : Account} {changed : Option RoleEntry}
      (haccount : t.account? key.username false = some account)
      (hadmin : account.roles.any (fun r => r.1 = .admin) = true → superuser = true)
      (hproblem : changeProblem? t c account.person = none)
      (hchanged : changedEntry c (t.roleOf? key.username key.role false) = .ok changed) :
      Makes superuser t (.update key c) true
        (.changePerson account.person (c.person account.person) ::
          roleChanges (t.roleOf? key.username key.role false) changed)
  | deactivate {key : RoleKey} {today : Date} {e : RoleEntry}
      (hadmin : key.role = .admin → superuser = true)
      (he : t.roleOf? key.username key.role true = some e) :
      Makes superuser t (.deactivate key today) true
        [.changeRole e { e with active := false, inactiveSince := some today }]
  | remove {key : RoleKey} {e : RoleEntry} (hadmin : key.role = .admin → superuser = true)
      (he : t.roleOf? key.username key.role false = some e) (hinactive : e.active = false) :
      Makes superuser t (.remove key) true [.removeRole e]

theorem Session.exec_commit_cases (changes : List Change) (d : Database) :
    (∃ t, changes.foldlM apply d.tables = .ok t
        ∧ exec (commit changes) d = (.ok (), { d with tables := t }))
      ∨ ∃ fault d', exec (commit changes) d = (.error fault, d') ∧ d'.tables = d.tables := by
  rw [exec_commit]
  cases changes.foldlM apply d.tables with
  | error fault => exact .inr ⟨fault, d, rfl, rfl⟩
  | ok t =>
    cases d.failure with
    | some failure => exact .inr ⟨failure.fault, _, rfl, rfl⟩
    | none => exact .inl ⟨t, rfl, rfl⟩

def Call.Leads (superuser : Bool) (call : Call) (t : Tables) (o : Outcome) (t' : Tables) : Prop :=
  ∃ cs, call.Makes superuser t (decide (o.number = 0)) cs ∧ cs.foldlM Tables.apply t = .ok t'

/-- A call leads from the tables of a database to a result. -/
def Call.LeadsTo (superuser : Bool) (call : Call) (d : Database) (r : Outcome × Database) : Prop :=
  call.Leads superuser d.tables r.1 r.2.tables

variable {superuser : Bool} {d d' : Database} {o : Outcome} {call : Call} {t' : Tables}

theorem Call.leads_of_refusal (ho : o.number ≠ 0) (ht : d'.tables = d.tables) :
    call.LeadsTo superuser d (o, d') := by
  refine ⟨[], ?_, congrArg Except.ok ht.symm⟩
  rw [decide_eq_false ho]
  exact .nothing

theorem Call.leads_of_success {changes : List Change} (hzero : o.number = 0)
    (hmakes : call.Makes superuser d.tables true changes)
    (hfold : changes.foldlM apply d.tables = .ok d'.tables) : call.LeadsTo superuser d (o, d') :=
  ⟨changes, decide_eq_true hzero ▸ hmakes, hfold⟩

theorem Call.leads_of_commit {ofFault : Fault → Outcome}
    (hfault : ∀ fault, (ofFault fault).number ≠ 0) {changes : List Change} {success : Outcome}
    (hzero : success.number = 0) (hmakes : call.Makes superuser d.tables true changes) :
    call.LeadsTo superuser d
      (told ofFault (Session.exec (do Session.commit changes; return success) d)) := by
  rw [Session.exec_bind]
  rcases Session.exec_commit_cases changes d with ⟨t, hfold, hexec⟩ | ⟨fault, e, hexec, htables⟩
  · rw [hexec]
    exact leads_of_success hzero hmakes hfold
  · rw [hexec]
    exact leads_of_refusal (hfault fault) htables

variable {key : RoleKey}

theorem leadsTo_deactivate (today : Date) : (Call.deactivate key today).LeadsTo superuser d
    (Call.run superuser (.deactivate key today) d) := by
  change Call.LeadsTo _ _ _ (StateT.run (deactivate key superuser today) d)
  unfold deactivate
  split_ifs with hadmin
  · exact Call.leads_of_refusal (Nat.succ_ne_zero _) rfl
  have hadmin : key.role = .admin → superuser := by simpa using hadmin
  rw [run_settled, deactivateRole, Session.exec_bind, Session.exec_tables]
  dsimp only
  cases he : d.tables.roleOf? key.username key.role true with
  | none => exact Call.leads_of_refusal (Nat.succ_ne_zero _) rfl
  | some e => exact Call.leads_of_commit (Outcome.number_ofDeleteFault _) rfl (.deactivate hadmin he)

theorem leadsTo_remove : (Call.remove key).LeadsTo superuser d
    (Call.run superuser (.remove key) d) := by
  change Call.LeadsTo _ _ _ (StateT.run (remove key superuser) d)
  unfold remove
  split_ifs with hadmin
  · exact Call.leads_of_refusal (Nat.succ_ne_zero _) rfl
  have hadmin : key.role = .admin → superuser := by simpa using hadmin
  rw [run_settled, removeRole, Session.exec_bind, Session.exec_tables]
  dsimp only
  cases he : d.tables.roleOf? key.username key.role false with
  | none => exact Call.leads_of_refusal (Nat.succ_ne_zero _) rfl
  | some e =>
    dsimp only
    split_ifs with hactive
    · exact Call.leads_of_refusal (Nat.succ_ne_zero _) rfl
    · exact Call.leads_of_commit (Outcome.number_ofDeleteFault _) rfl
        (.remove hadmin he (Bool.eq_false_iff.mpr hactive))

theorem leadsTo_updateAccount {account : Account}
    (haccount : d.tables.account? key.username false = some account)
    (hadmin : account.roles.any (·.1 = .admin) → superuser) :
    (Call.update key c).LeadsTo superuser d
      (told Outcome.ofWriteFault (Session.exec (updateAccount key c account.person) d)) := by
  rw [updateAccount, Session.exec_bind, Session.exec_tables]
  dsimp only
  cases hproblem : changeProblem? d.tables c account.person with
  | some problem => exact Call.leads_of_refusal (number_changeProblem hproblem) rfl
  | none =>
    cases hchanged : changedEntry c (d.tables.roleOf? key.username key.role false) with
    | error fault => exact Call.leads_of_refusal (Outcome.number_ofWriteFault fault) rfl
    | ok changed =>
      exact Call.leads_of_commit Outcome.number_ofWriteFault rfl
        (.update haccount hadmin hproblem hchanged)

theorem leadsTo_update : (Call.update key c).LeadsTo superuser d
    (Call.run superuser (.update key c) d) := by
  change Call.LeadsTo _ _ _ (StateT.run (update key c superuser) d)
  unfold update
  rw [StateT.run_bind, StateT.run_get, pure_bind]
  cases haccount : d.tables.account? key.username false with
  | none => exact Call.leads_of_refusal (Nat.succ_ne_zero _) rfl
  | some account =>
    dsimp only
    split_ifs with hadmin
    · exact Call.leads_of_refusal (Nat.succ_ne_zero _) rfl
    rw [run_settled]
    refine leadsTo_updateAccount haccount fun hany => ?_
    cases superuser with
    | true => rfl
    | false => exact absurd ⟨rfl, hany⟩ hadmin

theorem createRole_cases (a : NewAccount) (d : Database) :
    (∃ c success, RoleGrant d.tables a c ∧ success.number = 0
        ∧ Session.exec (createRole a) d = Session.exec (do Session.commit [c]; return success) d)
      ∨ ∃ refusal, refusal.number ≠ 0
        ∧ told Outcome.ofWriteFault (Session.exec (createRole a) d) = (refusal, d) := by
  rw [createRole, Session.exec_bind, Session.exec_tables]
  dsimp only
  cases he : d.tables.roleOf? a.person.username a.role false with
  | none =>
    cases hpassword : PasswordHash.ofPassword a.password with
    | error fault => exact .inr ⟨_, Outcome.number_ofWriteFault fault, rfl⟩
    | ok password => exact .inl ⟨_, _, .added he hpassword, rfl, rfl⟩
  | some e =>
    dsimp only
    split_ifs with hactive
    · exact .inr ⟨_, Nat.succ_ne_zero _, rfl⟩
    · exact .inl ⟨_, _, .activated he (Bool.eq_false_iff.mpr hactive), rfl, rfl⟩

variable {a : NewAccount}

theorem RoleGrant.of_roles_eq {c : Change} (h : RoleGrant t a c) (hroles : t.roles = t'.roles) :
    RoleGrant t' a c := by
  have hroleOf : t.roleOf? a.person.username a.role false =
      t'.roleOf? a.person.username a.role false := by
    unfold Tables.roleOf?
    rw [hroles]
  cases h with
  | added habsent hpassword => exact .added (hroleOf ▸ habsent) hpassword
  | activated he hinactive => exact .activated (hroleOf ▸ he) hinactive

theorem apply_singleton {c : Change} (h : [c].foldlM apply t = .ok t') : t.apply c = .ok t' := by
  obtain ⟨u, hu, hpure⟩ := Outcome.bind_eq_ok.mp h
  cases hpure
  exact hu

/-- A new person has been committed. They stay, whatever becomes of the role. -/
theorem leadsTo_newPerson (hadmin : a.role = .admin → superuser)
    (hnew : d.tables.account? a.person.username false = none)
    (hcontacts : contactProblem? d.tables a.person = none)
    (hperson : [Change.addPerson a.person].foldlM apply d.tables = .ok t) :
    (Call.create a).LeadsTo superuser d
      (told Outcome.ofWriteFault (Session.exec (createRole a) { d with tables := t })) := by
  have hstays {o : Outcome} {d' : Database} (ho : o.number ≠ 0) (ht : d'.tables = t) :
      (Call.create a).LeadsTo superuser d (o, d') := by
    refine ⟨_, ?_, ht ▸ hperson⟩
    rw [decide_eq_false ho]
    exact .person hadmin hnew hcontacts
  rcases createRole_cases a { d with tables := t } with
    ⟨c, success, hgrant, hzero, hexec⟩ | ⟨refusal, hnumber, hexec⟩
  · rw [hexec, Session.exec_bind]
    rcases Session.exec_commit_cases [c] { d with tables := t } with
      ⟨u, hrole, hexec⟩ | ⟨fault, e, hexec, htables⟩
    · rw [hexec]
      have hroles := Tables.roles_of_insertPerson (apply_singleton hperson)
      have hboth : ([Change.addPerson a.person] ++ [c]).foldlM apply d.tables = .ok u := by
        rw [List.foldlM_append, hperson]
        exact hrole
      exact Call.leads_of_success hzero
        (.newRole hadmin hnew hcontacts (hgrant.of_roles_eq hroles)) hboth
    · rw [hexec]
      exact hstays (Outcome.number_ofWriteFault fault) htables
  · rw [hexec]
    exact hstays hnumber rfl

theorem leadsTo_create : (Call.create a).LeadsTo superuser d (Call.run superuser (.create a) d) := by
  change Call.LeadsTo _ _ _ (StateT.run (create a superuser) d)
  unfold create
  split_ifs with hadmin
  · exact Call.leads_of_refusal (Nat.succ_ne_zero _) rfl
  have hadmin : a.role = .admin → superuser := by simpa using hadmin
  rw [StateT.run_bind, StateT.run_get, pure_bind, run_settled, createAccount]
  split_ifs with hknown
  · rcases createRole_cases a d with ⟨c, success, hgrant, hzero, hexec⟩ | ⟨refusal, hnumber, hexec⟩
    · rw [hexec]
      exact Call.leads_of_commit Outcome.number_ofWriteFault hzero (.role hadmin hknown hgrant)
    · rw [hexec]
      exact Call.leads_of_refusal hnumber rfl
  have hnew : d.tables.account? a.person.username false = none := by simpa using hknown
  rw [Session.exec_bind, Session.exec_tables]
  dsimp only
  cases hcontacts : contactProblem? d.tables a.person with
  | some problem => exact Call.leads_of_refusal (number_contactProblem hcontacts) rfl
  | none =>
    rw [Session.exec_bind]
    rcases Session.exec_commit_cases [.addPerson a.person] d with
      ⟨t, hperson, hexec⟩ | ⟨fault, e, hexec, htables⟩
    · rw [hexec]
      exact leadsTo_newPerson hadmin hnew hcontacts hperson
    · rw [hexec]
      exact Call.leads_of_refusal (Outcome.number_ofWriteFault fault) htables

theorem Call.leads (h : call.run superuser d = (o, d')) :
    call.Leads superuser d.tables o d'.tables := by
  suffices hleads : call.LeadsTo superuser d (call.run superuser d) by rwa [h] at hleads
  cases call with
  | create a => exact leadsTo_create
  | update key c => exact leadsTo_update
  | deactivate key today => exact leadsTo_deactivate today
  | remove key => exact leadsTo_remove

theorem leads_update (h : (update key c superuser).run d = (o, d')) :
    Call.Leads superuser (.update key c) d.tables o d'.tables :=
  Call.leads h

end SheetIntake.Accounts
