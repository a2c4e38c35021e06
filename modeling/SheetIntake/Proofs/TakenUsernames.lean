import SheetIntake.Proofs.AccountHistories

/-!
# Usernames stay taken

Removing the roles of a username leaves its person behind. Nobody finds that person any more: an
account is found through its roles. But the database still has it, so that the username, and the
contacts of the person, are taken for good.

* `recreated_iff` — a username that a successful call was about is never created again.
* `removed_username_is_refused` — a user is created, deactivated, removed, and cannot be created.
-/

namespace SheetIntake.Text

/-! ## Words in texts -/

variable {pattern cs : List Char}

theorem occursIn_of_prefix (h : pattern <+: cs) : occursIn pattern cs := by
  cases cs with
  | nil => rw [occursIn, List.prefix_nil.mp h, List.isEmpty_nil]
  | cons c cs => rw [occursIn, List.isPrefixOf_iff_prefix.mpr h, Bool.true_or]

theorem occursIn_append_left (xs : List Char) (h : occursIn pattern cs) :
    occursIn pattern (xs ++ cs) := by
  induction xs with
  | nil => exact h
  | cons x xs ih => rw [List.cons_append, occursIn, ih, Bool.or_true]

theorem occursIn_append_right (h : occursIn pattern cs) (xs : List Char) :
    occursIn pattern (cs ++ xs) := by
  induction cs with
  | nil =>
    rw [occursIn, List.isEmpty_iff] at h
    exact occursIn_of_prefix (h ▸ List.nil_prefix)
  | cons c cs ih =>
    rw [occursIn, Bool.or_eq_true] at h
    rcases h with h | h
    · exact occursIn_of_prefix ((List.isPrefixOf_iff_prefix.mp h).trans (List.prefix_append ..))
    · rw [List.cons_append, occursIn, ih h, Bool.or_true]

theorem contains_lowerBasic_append (before : String) {part word : String} (after : String)
    (h : contains (lowerBasic part) word) :
    contains (lowerBasic (before ++ part ++ after)) word := by
  unfold contains lowerBasic at *
  rw [String.toList_ofList] at h ⊢
  rw [String.toList_append, String.toList_append, List.map_append, List.map_append]
  exact occursIn_append_right (occursIn_append_left _ h) _

end SheetIntake.Text

namespace SheetIntake.Accounts

open Tables

variable {t : Tables} {w : String} {a : NewAccount} {o : Outcome} {d : Database}

/-! ## Contacts of a new person -/

/-- Nobody has a contact of a person. -/
def Tables.Unshared (t : Tables) (p : Person) : Prop :=
  ∀ q ∈ t.people, (p.email.isSome = true → p.email ≠ q.email)
    ∧ (p.phone.isSome = true → p.phone ≠ q.phone)

variable {p : Person}

theorem given_of_valid {contact : Option String} {valid : String → Bool}
    (hempty : valid "" = false) (h : ∀ s, contact = some s → valid s) :
    given contact = contact := by
  cases contact with
  | none => rfl
  | some s =>
    refine Option.filter_eq_some_iff.mpr ⟨rfl, decide_eq_true ?_⟩
    rintro rfl
    exact Bool.false_ne_true (hempty.symm.trans (h "" rfl))

theorem Person.WellFormed.given_email (h : p.WellFormed) : given p.email = p.email :=
  given_of_valid (by decide) h.email

theorem Person.WellFormed.given_phone (h : p.WellFormed) : given p.phone = p.phone :=
  given_of_valid (by decide) h.phone

theorem all_emailFree_iff {email : Option String} : email.all (t.emailFree · none) ↔
      ∀ q ∈ t.people, email.isSome → email ≠ q.email := by
  cases email with
  | none => simp
  | some e => simp [emailFree, @eq_comm _ (some e)]

theorem all_phoneFree_iff {phone : Option String} : phone.all (t.phoneFree · none) ↔
      ∀ q ∈ t.people, phone.isSome → phone ≠ q.phone := by
  cases phone with
  | none => simp
  | some n => simp [phoneFree, @eq_comm _ (some n)]

theorem contactProblem?_cases {p : Person} (h : p.WellFormed) :
    contactProblem? t p = none ∧ t.Unshared p ∨ ∃ problem, contactProblem? t p = some problem
        ∧ (problem.number = 3 ∨ problem.number = 4) ∧ ¬ t.Unshared p := by
  have hemail : ¬ p.email.any (!Contact.isEmail ·) := by
    simp only [Option.any_eq_true, Bool.not_eq_true', not_exists, not_and, Bool.not_eq_false]
    exact h.email
  have hphone : ¬ p.phone.any (!Contact.isPhone ·) := by
    simp only [Option.any_eq_true, Bool.not_eq_true', not_exists, not_and, Bool.not_eq_false]
    exact h.phone
  unfold contactProblem? contactsFree
  rw [if_neg hemail, if_neg hphone, h.given_email, h.given_phone, show given none = none from rfl]
  split_ifs with hfirst hsecond
  · rw [Bool.not_eq_true', Bool.eq_false_iff, Ne, all_emailFree_iff] at hfirst
    exact .inr ⟨_, rfl, .inl rfl, fun hall => hfirst (fun q hq => (hall q hq).1)⟩
  · rw [Bool.not_eq_true', Bool.eq_false_iff, Ne, all_phoneFree_iff] at hsecond
    exact .inr ⟨_, rfl, .inr rfl, fun hall => hsecond (fun q hq => (hall q hq).2)⟩
  · rw [Bool.not_eq_true', Bool.not_eq_false] at hfirst hsecond
    exact .inl ⟨rfl, fun q hq =>
      ⟨all_emailFree_iff.mp hfirst q hq, all_phoneFree_iff.mp hsecond q hq⟩⟩

/-! ## Creating a username without roles -/

theorem account?_of_no_entries (h : t.entriesOf w = []) (onlyActive : Bool) :
    t.account? w onlyActive = none := by
  cases hperson : t.person? w with
  | none => exact account?_eq_none hperson
  | some p => rw [account?_eq hperson, h, List.filter_nil, if_pos rfl]

theorem run_create_of_no_entries (h : t.entriesOf a.person.username = []) :
    Call.run true (.create a) { tables := t } =
      told Outcome.ofWriteFault (Session.exec (createAccount a false) { tables := t }) := by
  change StateT.run (create a true) _ = _
  unfold create
  rw [if_neg (by simp), StateT.run_bind, StateT.run_get, pure_bind, run_settled]
  rw [account?_of_no_entries h]
  rfl

theorem contains_violationText {statement word : String}
    (h : Text.contains (Text.lowerBasic statement) word) (rule : String) (values : List Value) :
    Text.contains (Text.lowerBasic (violationText rule statement values)) word := by
  unfold violationText
  rw [String.append_assoc, String.append_assoc]
  exact Text.contains_lowerBasic_append _ _ h

theorem ofText_of_email {text : String} (h : Text.contains (Text.lowerBasic text) "email") :
    Violation.ofText text =
      { field := "email", message := "Email already exists.", number := 4 } :=
  if_pos (Bool.or_eq_true_iff.mpr (.inl h))

/-- The database names the columns of the statement that failed, and so the address is blamed. -/
theorem ofText_insertPerson (rule : String) (p : Person) (values : List Value) :
    Violation.ofText (violationText rule
      ("INSERT INTO user_info (" ++ String.intercalate ", " (p.columns.map Prod.fst) ++
        ") VALUES (?, ?, ?, ?, ?, ?)") values) =
      { field := "email", message := "Email already exists.", number := 4 } := by
  have hcolumns : Text.contains (Text.lowerBasic (String.intercalate ", "
      ["username", "name", "surname", "sex", "phone", "email"])) "email" := by
    decide
  exact ofText_of_email (contains_violationText (Text.contains_lowerBasic_append _ _ hcolumns) rule
    values)

/-- How a username that a person has already is refused. -/
def usernameRefusal : Outcome :=
  { number := 4, message := "Email already exists.", status := 409 }

theorem insertPerson_of_taken {q : Person} (hp : t.person? p.username = some q) :
    ∃ fault, t.insertPerson p = .error fault ∧ Outcome.ofWriteFault fault = usernameRefusal := by
  have hclash : clash? t.people p = some (uniqueRule ["user_info.username"]) := by
    refine if_pos (List.any_eq_true.mpr ⟨q, List.mem_of_find?_eq_some hp, ?_⟩)
    exact decide_eq_true (username_of_person? hp)
  unfold insertPerson
  rw [hclash]
  refine ⟨_, rfl, ?_⟩
  unfold Outcome.ofWriteFault
  dsimp only
  rw [ofText_insertPerson]
  rfl

theorem insertPerson_of_free (hp : t.person? p.username = none) (h : t.Unshared p) :
    t.insertPerson p = .ok { t with people := t.people ++ [p] } := by
  have hname : ∀ q ∈ t.people, q.username ≠ p.username := by
    simpa [person?] using hp
  have hclash : clash? t.people p = none := by
    unfold clash?
    rw [if_neg, if_neg, if_neg]
    · simpa using fun hsome q hq heq => (h q hq).1 hsome heq.symm
    · simpa using fun hsome q hq heq => (h q hq).2 hsome heq.symm
    · simpa using hname
  unfold insertPerson
  rw [hclash]

theorem run_create_of_taken (hgone : t.entriesOf a.person.username = []) {q : Person}
    (hq : t.person? a.person.username = some q) : Call.run true (.create a) { tables := t } =
      ((contactProblem? t a.person).getD usernameRefusal, { tables := t }) := by
  rw [run_create_of_no_entries hgone, createAccount, if_neg Bool.false_ne_true, Session.exec_bind,
    Session.exec_tables]
  dsimp only
  cases contactProblem? t a.person with
  | some problem => rfl
  | none =>
    obtain ⟨fault, hinsert, hfault⟩ := insertPerson_of_taken hq
    have hfold : [Change.addPerson a.person].foldlM Tables.apply t = .error fault := by
      rw [List.foldlM_cons, Tables.apply, hinsert]
      rfl
    rw [Session.exec_bind, Session.exec_commit, hfold]
    exact congrArg (Prod.mk · _) hfault

theorem insertRole_of_free {username : String} {role : Role} (password : PasswordHash)
    (hnone : ∀ e ∈ t.roles, e.username ≠ username) (howner : ∃ p ∈ t.people, p.username = username) :
    ∃ t', t.insertRole username role password = .ok t' := by
  have hclash : roleClash? t t.roles username role = none := by
    unfold roleClash?
    rw [if_neg, if_neg]
    · rw [Option.isNone_iff_eq_none, ← Option.not_isSome_iff_eq_none, not_not]
      exact person?_isSome.mpr howner
    · simpa using fun e he hname _ => hnone e he hname
  unfold insertRole
  rw [hclash]
  exact ⟨_, rfl⟩

theorem exec_createRole_of_free (hnone : ∀ e ∈ t.roles, e.username ≠ a.person.username)
    (howner : ∃ p ∈ t.people, p.username = a.person.username) {password : PasswordHash}
    (hpassword : PasswordHash.ofPassword a.password = .ok password) :
    ∃ o t', Session.exec (createRole a) { tables := t } = (.ok o, { tables := t' })
      ∧ o.number = 0 := by
  have habsent : t.roleOf? a.person.username a.role false = none := by
    cases hfound : t.roleOf? a.person.username a.role false with
    | none => rfl
    | some e =>
      obtain ⟨he, hname, -⟩ := roleOf?_eq_some hfound
      exact absurd hname (hnone e he)
  obtain ⟨t', hinsert⟩ := @insertRole_of_free t _ a.role password hnone howner
  have hrole : [Change.addRole a.person.username a.role password].foldlM Tables.apply t = .ok t' := by
    rw [List.foldlM_cons, Tables.apply, hinsert]
    rfl
  rw [createRole, Session.exec_bind, Session.exec_tables]
  dsimp only
  rw [habsent]
  rw [Session.exec_bind, Session.exec_ofExcept, hpassword]
  dsimp only
  rw [Session.exec_bind, Session.exec_commit, hrole]
  exact ⟨_, t', rfl, rfl⟩

theorem run_create_of_free (hgone : t.entriesOf a.person.username = [])
    (hformed : a.person.WellFormed) (hname : t.person? a.person.username = none)
    (hunshared : t.Unshared a.person) {password : PasswordHash}
    (hpassword : PasswordHash.ofPassword a.password = .ok password) :
    (Call.run true (.create a) { tables := t }).1.number = 0 := by
  have hproblem : contactProblem? t a.person = none := by
    rcases @contactProblem?_cases t a.person hformed with ⟨hnone, -⟩ | ⟨_, _, _, hshared⟩
    · exact hnone
    · exact absurd hunshared hshared
  have hperson : [Change.addPerson a.person].foldlM Tables.apply t =
      .ok { t with people := t.people ++ [a.person] } := by
    rw [List.foldlM_cons, Tables.apply, insertPerson_of_free hname hunshared]
    rfl
  have hnone : ∀ e ∈ t.roles, e.username ≠ a.person.username := fun e he heq =>
    absurd (mem_entriesOf.mpr ⟨he, heq⟩) (hgone ▸ List.not_mem_nil)
  obtain ⟨o, t', hrole, hzero⟩ := @exec_createRole_of_free { t with people := t.people ++ [a.person] }
    a hnone ⟨a.person, List.mem_append_right _ (.head _), rfl⟩ password hpassword
  -- the person is committed, and then the role
  rw [run_create_of_no_entries hgone, createAccount, if_neg Bool.false_ne_true, Session.exec_bind,
    Session.exec_tables]
  dsimp only
  rw [hproblem]
  rw [Session.exec_bind, Session.exec_commit, hperson]
  dsimp only
  rw [hrole]
  exact hzero

theorem Call.Leads.free_of_created {t' : Tables} {superuser : Bool}
    (hleads : Call.Leads superuser (.create a) t o t') (hzero : o.number = 0)
    (hgone : t.entriesOf a.person.username = []) :
    t.person? a.person.username = none ∧ t.Unshared a.person
      ∧ ∃ password, PasswordHash.ofPassword a.password = .ok password := by
  obtain ⟨cs, hmakes, hfold⟩ := hleads
  rw [decide_eq_true hzero] at hmakes
  cases hmakes with
  | newRole _ _ _ hgrant =>
    obtain ⟨u, hu, -⟩ := SheetIntake.Outcome.bind_eq_ok.mp hfold
    obtain ⟨hapart, -⟩ := insertPerson_eq_ok hu
    refine ⟨?_, fun q hq => ⟨(hapart q hq).email, (hapart q hq).phone⟩, ?_⟩
    · rw [person?, List.find?_eq_none]
      exact fun q hq heq => (hapart q hq).username (of_decide_eq_true heq).symm
    · cases hgrant with
      | added _ hpassword => exact ⟨_, hpassword⟩
      | activated he _ =>
        obtain ⟨he, hname, -⟩ := roleOf?_eq_some he
        exact absurd (mem_entriesOf.mpr ⟨he, hname⟩) (hgone ▸ List.not_mem_nil)
  | role _ hknown _ =>
    rw [account?_of_no_entries hgone] at hknown
    cases hknown

theorem Call.Leads.active_of_created {t' : Tables} {superuser : Bool} (h : t.Lawful)
    (hleads : Call.Leads superuser (.create a) t o t') (hzero : o.number = 0) :
    ∃ e ∈ t'.entriesOf a.person.username, e.role = a.role ∧ e.active := by
  obtain ⟨cs, hmakes, hfold⟩ := hleads
  rw [decide_eq_true hzero] at hmakes
  cases hmakes with
  | newRole _ _ _ hgrant =>
    obtain ⟨u, hu, hfold⟩ := SheetIntake.Outcome.bind_eq_ok.mp hfold
    have hgrant' := hgrant.of_roles_eq (roles_of_insertPerson hu).symm
    exact (hgrant'.entries (h.addPerson hu) (apply_singleton hfold)).2.1
  | role _ _ hgrant => exact (hgrant.entries h (apply_singleton hfold)).2.1

/-! ## Usernames in a run -/

variable {t' : Tables} {superuser : Bool} {call : Call}

theorem Call.Leads.taken (h : t.Lawful) (hleads : call.Leads superuser t o t')
    (hzero : o.number = 0) : call.subject ∈ t'.people.map Person.username := by
  have hstays := hleads.peopleChange.usernames.subset
  obtain ⟨cs, hmakes, hfold⟩ := hleads
  rw [decide_eq_true hzero] at hmakes
  have hperson {w : String} {p : Person} (hp : t.person? w = some p) :
      w ∈ t.people.map Person.username :=
    List.mem_map.mpr ⟨p, List.mem_of_find?_eq_some hp, username_of_person? hp⟩
  have hentry {key : RoleKey} {onlyActive : Bool} {e : RoleEntry}
      (he : t.roleOf? key.username key.role onlyActive = some e) :
      key.username ∈ t.people.map Person.username := by
    obtain ⟨hmem, hname, -⟩ := roleOf?_eq_some he
    exact List.mem_map.mpr (hname ▸ h.owners e hmem)
  cases hmakes with
  | newRole _ _ _ hgrant =>
    obtain ⟨u, hu, hfold⟩ := SheetIntake.Outcome.bind_eq_ok.mp hfold
    have hgrant' := hgrant.of_roles_eq (roles_of_insertPerson hu).symm
    rw [hgrant'.people_eq (apply_singleton hfold)]
    obtain ⟨-, rfl⟩ := insertPerson_eq_ok hu
    exact List.mem_map_of_mem (List.mem_append_right _ (.head _))
  | role _ hknown _ =>
    obtain ⟨account, haccount⟩ := Option.isSome_iff_exists.mp hknown
    exact hstays (hperson (entriesOf_ne_nil haccount).1)
  | update haccount _ _ _ => exact hstays (hperson (entriesOf_ne_nil haccount).1)
  | deactivate _ he | remove _ he _ => exact hstays (hentry he)

theorem taken_of_mem_log {attempts : List Attempt} {log : List (Attempt × Outcome)} (h : t.Sound)
    (hrun : runAttempts attempts t = (log, t')) {entry : Attempt × Outcome} (hentry : entry ∈ log)
    (hzero : entry.2.number = 0) : entry.1.call.subject ∈ t'.people.map Person.username := by
  induction attempts generalizing t log with
  | nil =>
    cases hrun
    cases hentry
  | cons a rest ih =>
    obtain ⟨o, u, log', hleads, hrest, rfl⟩ := runAttempts_cons hrun
    rcases List.mem_cons.mp hentry with rfl | hentry
    · exact runAttempts_keeps (P := fun t => a.call.subject ∈ t.people.map Person.username)
        (fun hleads hmem => hleads.peopleChange.usernames.subset hmem) hrest
        (hleads.taken h.lawful hzero)
    · exact ih (hleads.sound h) hrest hentry

/-- Where a username has no roles, it is created exactly when nobody has it, nobody has the contacts,
and the password can be kept. A username that a successful call was about is never created again, in
particular not after its roles were removed: there is still a person with it, the creation is refused,
and nothing changes. -/
theorem recreated_iff {attempts : List Attempt} {log : List (Attempt × Outcome)}
    (hrun : runAttempts attempts {} = (log, t)) (hgone : t.entriesOf a.person.username = [])
    (hformed : a.person.WellFormed)
    (hcreate : Call.run true (.create a) { tables := t } = (o, d)) :
    ((o.number = 0
        ∧ ∃ e ∈ d.tables.entriesOf a.person.username, e.role = a.role ∧ e.active = true) ↔
        t.person? a.person.username = none ∧ t.Unshared a.person
          ∧ ∃ password, PasswordHash.ofPassword a.password = .ok password)
      ∧ ((∃ entry ∈ log, entry.1.call.subject = a.person.username ∧ entry.2.number = 0) →
        (∃ p, t.person? a.person.username = some p) ∧ (o.number = 3 ∨ o.number = 4)
          ∧ d.tables = t) := by
  have hsound := sound_of_runAttempts hrun
  have hleads : Call.Leads true (.create a) t o d.tables := Call.leads hcreate
  refine ⟨⟨fun hmade => hleads.free_of_created hmade.1 hgone, ?_⟩, ?_⟩
  · rintro ⟨hname, hunshared, password, hpassword⟩
    have hzero : o.number = 0 := by
      have hrunfree := run_create_of_free hgone hformed hname hunshared hpassword
      rwa [hcreate] at hrunfree
    exact ⟨hzero, hleads.active_of_created hsound.lawful hzero⟩
  · rintro ⟨entry, hentry, hsubject, hzero⟩
    have htaken := taken_of_mem_log sound_empty hrun hentry hzero
    rw [hsubject, List.mem_map, ← person?_isSome] at htaken
    obtain ⟨p, hp⟩ := Option.isSome_iff_exists.mp htaken
    obtain ⟨rfl, rfl⟩ := Prod.mk.inj (hcreate.symm.trans (run_create_of_taken hgone hp))
    refine ⟨⟨p, hp⟩, ?_, rfl⟩
    rcases @contactProblem?_cases t a.person hformed with
      ⟨hnone, -⟩ | ⟨problem, hproblem, hnumber, -⟩
    · rw [hnone]
      exact .inr rfl
    · rw [hproblem]
      exact hnumber

/-- A user with a telephone number. -/
def bob (phone : String) : NewAccount :=
  { person := { username := "bob", phone := some phone }, role := .user, password := "pw" }

/-- A user comes and leaves: the account is created, deactivated and removed. -/
def departure : List Attempt :=
  [{ call := .create (bob "5551234567"), superuser := false },
    { call := .deactivate { username := "bob", role := .user } { year := 2024, month := 1, day := 1 }
      superuser := false },
    { call := .remove { username := "bob", role := .user }, superuser := true }]

theorem wellFormed_bob : (bob "555-123-4567").person.WellFormed :=
  ⟨nofun, fun n hn => by cases Option.some.inj hn; decide⟩

/-- The user who left does not come back with another telephone number. -/
theorem departed_user_is_refused :
    ∃ log t o d, runAttempts departure {} = (log, t) ∧ t.entriesOf "bob" = []
      ∧ (bob "555-123-4567").person.WellFormed
      ∧ Call.run true (.create (bob "555-123-4567")) { tables := t } = (o, d)
      ∧ (∃ p, t.person? "bob" = some p) ∧ (o.number = 3 ∨ o.number = 4) ∧ d.tables = t := by
  let run := runAttempts departure {}
  have hrun : runAttempts departure {} = (run.1, run.2) := rfl
  have hgone : run.2.entriesOf "bob" = [] := by decide
  have hdone : ∃ entry ∈ run.1, entry.1.call.subject = "bob" ∧ entry.2.number = 0 :=
    ⟨_, List.mem_cons_self, rfl, rfl⟩
  let again := Call.run true (.create (bob "555-123-4567")) { tables := run.2 }
  have hagain : Call.run true (.create (bob "555-123-4567")) { tables := run.2 } =
      (again.1, again.2) := rfl
  exact ⟨run.1, run.2, again.1, again.2, hrun, hgone, wellFormed_bob, hagain,
    (recreated_iff hrun hgone wellFormed_bob hagain).2 hdone⟩

/-- All three calls succeed and no role is left, but the person is there and the username cannot be
created again. -/
theorem removed_username_is_refused :
    let run := runAttempts departure {}
    (∀ entry ∈ run.1, entry.2.number = 0) ∧ run.2.roles = []
      ∧ run.2.people = [(bob "5551234567").person]
      ∧ Call.run true (.create (bob "555-123-4567")) { tables := run.2 } =
        ({ number := 4, message := "Email already exists.", status := 409 }, { tables := run.2 }) := by
  intro run
  refine ⟨by decide, by decide, by decide, ?_⟩
  have hproblem : contactProblem? run.2 (bob "555-123-4567").person = none := by decide
  have hperson : run.2.person? "bob" = some (bob "5551234567").person := by decide
  have hrefused := @run_create_of_taken run.2 (bob "555-123-4567") (by decide) _ hperson
  rwa [hproblem] at hrefused

end SheetIntake.Accounts
