import SheetIntake.Proofs.AccountRows

/-!
# Admins and calls without the rights of the superuser

Calls without the rights of the superuser never take anything away from the admins: their entries
and their people stay as they are. There is one way in which they add to them. An update looks at
the roles that an account has, not at the role that it is to get, and so a user can become an admin.

* `Tables.SparesAdmins`, `Tables.KeepsAdmins`, `Tables.GainsAdmin` — how the admins of two tables
  compare.
* `admins_unchanged_iff` — after any calls the admins are the same exactly when none promoted.
* `user_becomes_admin` — a new user promotes themselves.
-/

namespace SheetIntake.Accounts

namespace Tables

variable {t t' t'' : Tables} {e f : RoleEntry}

def adminRows (t : Tables) : List RoleEntry :=
  t.roles.filter (fun e => e.role = .admin)

theorem mem_adminRows : e ∈ t.adminRows ↔ e ∈ t.roles ∧ e.role = .admin := by
  unfold adminRows
  rw [List.mem_filter, decide_eq_true_eq]

/-- The admins of a table are the same people in another one. -/
def SamePeople (t t' : Tables) : Prop :=
  ∀ e ∈ t.adminRows, t'.person? e.username = t.person? e.username

/-- Nothing about admins changes. -/
structure SparesAdmins (t t' : Tables) : Prop where
  rows : t'.adminRows = t.adminRows
  people : t.SamePeople t'

/-- The admins of tables stay as they are; there may be new ones. -/
structure KeepsAdmins (t t' : Tables) : Prop where
  rows : ∀ e ∈ t.adminRows, e ∈ t'.adminRows
  people : t.SamePeople t'

theorem KeepsAdmins.trans (h : t.KeepsAdmins t') (h' : t'.KeepsAdmins t'') : t.KeepsAdmins t'' :=
  ⟨fun e he => h'.rows e (h.rows e he),
    fun e he => (h'.people e (h.rows e he)).trans (h.people e he)⟩

theorem SparesAdmins.keeps (h : t.SparesAdmins t') : t.KeepsAdmins t' :=
  ⟨fun _ he => h.rows.symm ▸ he, h.people⟩

def GainsAdmin (t t' : Tables) : Prop :=
  ∃ e ∈ t'.adminRows, e ∉ t.adminRows

theorem gainsAdmin_changeRole (h : t.Lawful) (he : e ∈ t.roles) (hrole : e.role ≠ .admin)
    (happly : t.updateRole e f = .ok t') (hid : f.id = e.id) (hnew : f.role = .admin) :
    t.GainsAdmin t' := by
  obtain ⟨heq, -⟩ | ⟨-, -, heq⟩ := updateRole_eq_ok happly
  · exact absurd (heq ▸ hnew) hrole
  subst heq
  refine ⟨f, mem_adminRows.mpr ⟨List.mem_map.mpr ⟨e, he, if_pos rfl⟩, hnew⟩, fun hf => ?_⟩
  exact hrole (h.eq_of_id (mem_adminRows.mp hf).1 he hid ▸ hnew)

end Tables

open Tables

variable {t t' : Tables} {call : Call} {o : Outcome}

/-- A successful call that gives an existing role the rights of an admin. -/
def Call.Promotes : Call → Outcome → Prop
  | .update _ c, o => c.role = some .admin ∧ o.number = 0
  | _, _ => False

instance : Decidable (call.Promotes o) :=
  match call with
  | .update _ c => inferInstanceAs (Decidable (c.role = some .admin ∧ o.number = 0))
  | .create _ | .deactivate _ _ | .remove _ => .isFalse id

/-- Without the rights of the superuser nothing is written about the people who are admins. -/
theorem Call.WritesPerson.samePeople (hwrites : call.WritesPerson false t t') (h : t.Lawful) :
    t.SamePeople t' := by
  intro e he
  obtain ⟨he, hrole⟩ := mem_adminRows.mp he
  cases hwrites with
  | nothing => rfl
  | added _ happly =>
    -- the new person has another username than the admin, who is a person already
    obtain ⟨q, hq, hname⟩ := h.owners e he
    have hne := ((insertPerson_eq_ok happly).1 q hq).username
    exact (sameFor_addPerson (hname ▸ hne) happly).person
  | changed hperson hadmin _ hkept happly =>
    have hne := fun hmine => Bool.false_ne_true (hadmin e he hmine hrole)
    refine (sameFor_changePerson (fun heq => hne ?_) (fun heq => hne ?_) happly).person
    · exact heq.symm.trans (username_of_person? hperson)
    · exact heq.symm.trans hkept

variable {gone come : List RoleEntry}

theorem Call.WritesRole.spares (hwrites : call.WritesRole false o t gone come t') (h : t.Lawful)
    (hpromotes : ¬ call.Promotes o) : t'.adminRows = t.adminRows := by
  refine hwrites.exchanged.filter h _ fun e he => decide_eq_false fun hrole => ?_
  rcases List.mem_append.mp he with he | he
  · exact Bool.false_ne_true (hwrites.admin e he hrole)
  · rcases hwrites.promoted e he hrole with hsuper | ⟨hzero, key, c, rfl, hc⟩
    · exact Bool.false_ne_true hsuper
    · exact hpromotes ⟨hc, hzero⟩

theorem Call.WritesRole.keeps (hwrites : call.WritesRole false o t gone come t') (h : t.Lawful) :
    ∀ e ∈ t.adminRows, e ∈ t'.adminRows := by
  intro e he
  obtain ⟨he, hrole⟩ := mem_adminRows.mp he
  have hgone : e ∉ gone := fun hgone => Bool.false_ne_true (hwrites.admin e hgone hrole)
  exact mem_adminRows.mpr ⟨hwrites.exchanged.stays h he hgone, hrole⟩

/-- A promotion needs an entry that has another role before. -/
theorem gainsAdmin_of_promotion {key : RoleKey} {c : AccountChange} (h : t.Lawful)
    (hleads : Call.Leads false (.update key c) t o t') (hc : c.role = some .admin)
    (hzero : o.number = 0) : t.GainsAdmin t' := by
  obtain ⟨cs, hmakes, hfold⟩ := hleads
  rw [decide_eq_true hzero] at hmakes
  obtain ⟨u, hperson, ⟨hnone, -⟩ | ⟨e, f, happly, he, hid, -, hrights, hrole, -⟩⟩ :=
    hmakes.writes_update hfold
  · cases hc.symm.trans hnone
  have hne : e.role ≠ .admin := fun hadmin => Bool.false_ne_true (hrights hadmin)
  rw [hc] at hrole
  obtain ⟨g, hg, hnew⟩ := gainsAdmin_changeRole (hperson.onlyFor h).1 he hne happly hid hrole
  refine ⟨g, hg, ?_⟩
  unfold adminRows at hnew ⊢
  rwa [← hperson.roles_eq]

/-- A call without the rights of the superuser spares the admins, unless it promotes: then there is
one more. -/
theorem Call.Leads.admins (h : t.Lawful) (hleads : call.Leads false t o t') :
    t'.Lawful ∧ (¬ call.Promotes o ∧ t.SparesAdmins t'
      ∨ call.Promotes o ∧ t.KeepsAdmins t' ∧ t.GainsAdmin t') := by
  refine ⟨(hleads.onlyFor h).1, ?_⟩
  obtain ⟨u, gone, come, hperson, hrole⟩ := hleads.writes
  have hlawful := (hperson.onlyFor h).1
  have hrows : u.adminRows = t.adminRows := congrArg (List.filter _) hperson.roles_eq
  have hpeople : t.SamePeople t' := fun e he => by
    have hsame := hperson.samePeople h e he
    unfold person? at hsame ⊢
    rw [hrole.exchanged.people, hsame]
  by_cases hpromotes : call.Promotes o
  · refine .inr ⟨hpromotes, ⟨hrows ▸ hrole.keeps hlawful, hpeople⟩, ?_⟩
    cases call with
    | update key c => exact gainsAdmin_of_promotion h hleads hpromotes.1 hpromotes.2
    | create _ | deactivate _ _ | remove _ => exact hpromotes.elim
  · exact .inl ⟨hpromotes, (hrole.spares hlawful hpromotes).trans hrows, hpeople⟩

/-! ## Many calls -/

/-- Carries out calls one after the other, in each of which a commit may fail. The log tells their
outcomes. -/
def runCalls (superuser : Bool) :
    List (Call × Option CommitFailure) → Tables → List (Call × Outcome) × Tables
  | [], t => ([], t)
  | (call, failure) :: rest, t =>
    let (o, d) := call.run superuser { tables := t, failure }
    let (log, t') := runCalls superuser rest d.tables
    ((call, o) :: log, t')

theorem runCalls_cons {superuser : Bool} {call : Call} {failure : Option CommitFailure}
    {rest : List (Call × Option CommitFailure)} {log : List (Call × Outcome)}
    (h : runCalls superuser ((call, failure) :: rest) t = (log, t')) :
    ∃ o d log', call.run superuser { tables := t, failure } = (o, d)
      ∧ runCalls superuser rest d.tables = (log', t') ∧ log = (call, o) :: log' := by
  obtain ⟨hlog, htables⟩ := Prod.mk.inj h
  exact ⟨_, _, _, rfl, Prod.ext rfl htables, hlog.symm⟩

/-- Calls without the rights of the superuser keep the admins, and there are new ones exactly when a
call promotes. -/
theorem runCalls_admins {calls : List (Call × Option CommitFailure)} {log : List (Call × Outcome)}
    (h : t.Lawful) (hrun : runCalls false calls t = (log, t')) : t'.Lawful ∧ t.KeepsAdmins t'
      ∧ ((∀ p ∈ log, ¬ p.1.Promotes p.2) ∧ t'.adminRows = t.adminRows
        ∨ (∃ p ∈ log, p.1.Promotes p.2) ∧ t.GainsAdmin t') := by
  induction calls generalizing t log with
  | nil =>
    cases hrun
    exact ⟨h, ⟨fun _ he => he, fun _ _ => rfl⟩, .inl ⟨List.forall_mem_nil _, rfl⟩⟩
  | cons request rest ih =>
    obtain ⟨o, d, log', hcall, hrest, rfl⟩ := runCalls_cons hrun
    obtain ⟨hlawful, hstep⟩ := (Call.leads hcall).admins h
    obtain ⟨hlawful', hkeeps, hlater⟩ := ih hlawful hrest
    rcases hstep with ⟨hno, hspares⟩ | ⟨hyes, hkeeps', e, he, hnot⟩
    · refine ⟨hlawful', hspares.keeps.trans hkeeps, ?_⟩
      rcases hlater with ⟨hnone, hrows⟩ | ⟨⟨p, hp, hpromotes⟩, e, he, hnot⟩
      · exact .inl ⟨List.forall_mem_cons.mpr ⟨hno, hnone⟩, hrows.trans hspares.rows⟩
      · exact .inr ⟨⟨p, .tail _ hp, hpromotes⟩, e, he, hspares.rows ▸ hnot⟩
    · -- the later calls keep the new admin
      exact ⟨hlawful', hkeeps'.trans hkeeps,
        .inr ⟨⟨_, .head _, hyes⟩, e, hkeeps.rows e he, hnot⟩⟩

/-- Calls without the rights of the superuser leave the entries of the admins as they were exactly
when none of them promotes. The admins that there were stay the same in any case. -/
theorem admins_unchanged_iff {calls : List (Call × Option CommitFailure)}
    {log : List (Call × Outcome)} (h : t.Lawful) (hrun : runCalls false calls t = (log, t')) :
    ((∀ e, e ∈ t'.adminRows ↔ e ∈ t.adminRows) ↔ ∀ p ∈ log, ¬ p.1.Promotes p.2)
      ∧ t.KeepsAdmins t' ∧ t'.Lawful := by
  obtain ⟨hlawful, hkeeps, ⟨hnone, hrows⟩ | ⟨⟨p, hp, hpromotes⟩, e, he, hnot⟩⟩ :=
    runCalls_admins h hrun
  · exact ⟨iff_of_true (fun e => hrows ▸ Iff.rfl) hnone, hkeeps, hlawful⟩
  · refine ⟨iff_of_false (fun hsame => ?_) (fun hnone => ?_), hkeeps, hlawful⟩
    · exact hnot ((hsame e).mp he)
    · exact hnone p hp hpromotes

def office : Tables :=
  { people := [{ username := "root" }, { username := "eve", phone := some "5551234567" }]
    roles := [{ id := 1, username := "root", role := .admin, password := { key := [] } },
      { id := 2, username := "eve", role := .user, password := { key := [] } }] }

theorem lawful_office : office.Lawful where
  people := List.pairwise_pair.mpr ⟨by decide, by decide, by decide⟩
  roles := List.pairwise_pair.mpr ⟨by decide, by decide⟩
  owners := by decide

def attempts : List (Call × Option CommitFailure) :=
  [(.deactivate { username := "root", role := .admin } { year := 2024, month := 1, day := 1 },
      none),
    (.update { username := "root", role := .user } { name := some "Eve" }, none),
    (.update { username := "eve", role := .user } { name := some "Eve" }, some (.other "gone")),
    (.update { username := "eve", role := .user } { name := some "Eve" }, none)]

theorem admin_survives_attempts :
    ∃ log t', runCalls false attempts office = (log, t')
      ∧ log.map (fun p => p.2.number) = [2, 2, 500, 0]
      ∧ (∀ e, e ∈ t'.adminRows ↔ e ∈ office.adminRows) ∧ office.KeepsAdmins t' := by
  let run := runCalls false attempts office
  have hrun : runCalls false attempts office = (run.1, run.2) := rfl
  have h := admins_unchanged_iff lawful_office hrun
  have hnone : ∀ p ∈ run.1, ¬ p.1.Promotes p.2 := by decide
  exact ⟨run.1, run.2, hrun, by decide, h.1.mpr hnone, h.2.1⟩

def selfPromotion : List (Call × Option CommitFailure) :=
  [(.create { person := { username := "eve" }, role := .user, password := "pw" }, none),
    (.update { username := "eve", role := .user } { role := some .admin }, none)]

/-- Without the rights of the superuser there is an admin where there was none. -/
theorem user_becomes_admin :
    ∃ log t', runCalls false selfPromotion {} = (log, t') ∧ (∀ p ∈ log, p.2.number = 0)
      ∧ ({} : Tables).adminRows = [] ∧ ∃ e ∈ t'.adminRows, e.username = "eve" ∧ e.active = true :=
  ⟨_, _, rfl, by decide⟩

end SheetIntake.Accounts
