import SheetIntake.Proofs.AdminProtection

/-!
# What an update changes

An update that succeeds does what it was asked for: the columns that are given get their new values,
in the row of the person and in the entry of the role that is meant, and everything else stays. But
it is looked only at the username to see whether the account is there. Where the role that is meant
is missing, an update of the person alone succeeds all the same.

* `updates_as_asked_iff` — the other requests, and only they, succeed for a role that is there.
-/

namespace SheetIntake.Accounts

open Tables
open SheetIntake.Outcome (bind_eq_ok map_eq_ok ok_bind)

/-! ## Rows that were changed as asked -/

/-- A person with some columns replaced by those that a change gives. -/
structure Person.Amended (c : AccountChange) (p p' : Person) : Prop where
  username : p'.username = c.username.getD p.username
  name : p'.name = c.name.or p.name
  surname : p'.surname = c.surname.or p.surname
  sex : p'.sex = c.sex.or p.sex
  phone : p'.phone = c.phone.or p.phone
  email : p'.email = c.email.or p.email

/-- An entry of an account after a change: the username is that of the person, and where the role is
the one that is meant, so are role and password the given ones. -/
structure RoleEntry.Amended (key : RoleKey) (c : AccountChange) (e e' : RoleEntry) : Prop where
  id : e'.id = e.id
  username : e'.username = c.username.getD e.username
  active : e'.active = e.active
  inactiveSince : e'.inactiveSince = e.inactiveSince
  other : e.role ≠ key.role → e'.role = e.role ∧ e'.password = e.password
  role : e.role = key.role → e'.role = c.role.getD e.role
  kept : e.role = key.role → c.password = none → e'.password = e.password
  hashed : e.role = key.role →
    ∀ password ∈ c.password, e'.password.verify password = .ok true

/-- Tables in which the account of a username was changed as asked, and nothing else. -/
structure Tables.Updated (key : RoleKey) (c : AccountChange) (t t' : Tables) : Prop where
  people : List.Forall₂ (fun p p' =>
    if p.username = key.username then p.Amended c p' else p' = p) t.people t'.people
  roles : List.Forall₂ (fun e e' =>
    if e.username = key.username then e.Amended key c e' else e' = e) t.roles t'.roles

/-- Whether there is an entry for the role that is meant. -/
def Tables.HasRole (t : Tables) (key : RoleKey) : Prop :=
  ∃ e ∈ t.roles, e.username = key.username ∧ e.role = key.role

instance (t : Tables) (key : RoleKey) : Decidable (t.HasRole key) :=
  inferInstanceAs (Decidable (∃ e ∈ t.roles, _))

variable {t t' : Tables} {key : RoleKey} {c : AccountChange} {superuser : Bool}

theorem hasRole_iff : t.HasRole key ↔ ∃ e, t.roleOf? key.username key.role false = some e := by
  rw [← Option.isSome_iff_exists]
  unfold HasRole roleOf? counts
  simp

theorem AccountChange.amended_person (c : AccountChange) (p : Person) : p.Amended c (c.person p) :=
  ⟨rfl, rfl, rfl, rfl, rfl, rfl⟩

theorem PasswordHash.verify_ofPassword {password : String} {hash : PasswordHash}
    (h : ofPassword password = .ok hash) : hash.verify password = .ok true := by
  obtain ⟨key, hkey, heq⟩ := bind_eq_ok.mp h
  cases heq
  unfold verify
  rw [hkey, ok_bind]
  exact congrArg Except.ok (decide_eq_true rfl)

/-! ## Changes of a person -/

theorem ofText?_inj {a b : Option String} (h : Value.ofText? a = Value.ofText? b) : a = b := by
  cases a <;> cases b <;> simp_all [Value.ofText?]

theorem Sex.letter_inj {a b : Option Sex} (h : a.map letter = b.map letter) : a = b :=
  Option.map_injective (fun x y => by cases x <;> cases y <;> decide) h

variable {old new : Person}

theorem eq_of_changedColumns (h : changedColumns old new = []) : new = old := by
  have hsame := List.filter_eq_nil_iff.mp (List.map_eq_nil_iff.mp h)
  obtain ⟨u, n, s, x, p, e⟩ := old
  simp only [Person.columns, List.zip_cons_cons, List.zip_nil_right, List.forall_mem_cons, ne_eq,
    decide_not, Bool.not_eq_true', decide_eq_false_iff_not, not_not, Value.str.injEq] at hsame
  obtain ⟨rfl, hname, hsurname, hsex, hphone, hemail, -⟩ := hsame
  rw [ofText?_inj hname, ofText?_inj hsurname, Sex.letter_inj (ofText?_inj hsex),
    ofText?_inj hphone, ofText?_inj hemail]

variable {p : Person}

theorem eq_person?_iff (h : t.Lawful) {q : Person} (hp : p ∈ t.people) {w : String}
    (hq : t.person? w = some q) : p = q ↔ p.username = w := by
  have hname := username_of_person? hq
  refine ⟨fun heq => heq ▸ hname, fun heq => by_contra fun hne => ?_⟩
  exact (h.people.forall hp (List.mem_of_find?_eq_some hq) hne).username (heq.trans hname.symm)

theorem people_of_updatePerson (h : t.Lawful) (hold : t.person? key.username = some old)
    (happly : t.updatePerson old new = .ok t') :
    List.Forall₂ (fun p p' => p ∈ t.people ∧ p' = if p = old then new else p)
      t.people t'.people := by
  rcases updatePerson_eq_ok happly with ⟨hnone, rfl⟩ | ⟨-, -, rfl⟩
  · obtain rfl := eq_of_changedColumns hnone
    refine List.forall₂_same.mpr fun p hp => ⟨hp, ?_⟩
    split_ifs with heq
    · exact heq
    · rfl
  · refine List.forall₂_map_right_iff.mpr (List.forall₂_same.mpr fun p hp => ⟨hp, ?_⟩)
    simp only [eq_person?_iff h hp hold, username_of_person? hold]

/-! ## Changes of an entry -/

theorem RoleEntry.amended_self {e : RoleEntry} (hname : c.username.getD e.username = e.username)
    (hother : e.role ≠ key.role) : e.Amended key c e :=
  ⟨rfl, hname.symm, rfl, rfl, fun _ => ⟨rfl, rfl⟩, fun hrole => absurd hrole hother,
    fun hrole => absurd hrole hother, fun hrole => absurd hrole hother⟩

theorem amended_changedEntry {old : RoleEntry} {changed : Option RoleEntry}
    (hrole : old.role = key.role) (h : changedEntry c (some old) = .ok changed) :
    ∃ new, changed = some new ∧ old.Amended key c new := by
  rw [changedEntry_some] at h
  obtain ⟨password, hpassword, rfl⟩ := map_eq_ok.mp h
  refine ⟨_, rfl, rfl, rfl, rfl, rfl, fun hother => absurd hrole hother, fun _ => rfl,
    fun _ hnone => ?_, fun _ given hgiven => ?_⟩
  · rw [changedPassword, hnone] at hpassword
    exact (Except.ok.inj hpassword).symm
  · rw [changedPassword, Option.mem_def.mp hgiven] at hpassword
    exact PasswordHash.verify_ofPassword hpassword

theorem roles_of_updateRole (h : t.roles.Pairwise RoleEntry.Apart) {old new : RoleEntry}
    (hold : old ∈ t.roles) (happly : t.updateRole old new = .ok t') :
    List.Forall₂ (fun e e' => e ∈ t.roles ∧ e' = if e = old then new else e) t.roles t'.roles := by
  rcases updateRole_eq_ok happly with ⟨rfl, rfl⟩ | ⟨-, -, rfl⟩
  · refine List.forall₂_same.mpr fun e he => ⟨he, ?_⟩
    split_ifs with heq
    · exact heq
    · rfl
  · refine List.forall₂_map_right_iff.mpr (List.forall₂_same.mpr fun e he => ⟨he, ?_⟩)
    have hid : e.id = old.id ↔ e = old :=
      ⟨fun hid => by_contra fun hne => (h.forall he hold hne).id hid, fun heq => heq ▸ rfl⟩
    simp only [hid]

theorem roles_of_roleChanges (h : t.Lawful) {u : Tables} (hroles : u.roles = t.roles)
    {changed : Option RoleEntry}
    (hchanged : changedEntry c (t.roleOf? key.username key.role false) = .ok changed)
    (hfold : (roleChanges (t.roleOf? key.username key.role false) changed).foldlM Tables.apply u =
      .ok t') (hname : c.username.getD key.username = key.username) :
    t'.people = u.people ∧ List.Forall₂ (fun e e' =>
      if e.username = key.username then e.Amended key c e' else e' = e) t.roles t'.roles := by
  cases hold : t.roleOf? key.username key.role false with
  | none =>
    rw [hold] at hchanged hfold
    obtain rfl : u = t' := Except.ok.inj hfold
    refine ⟨rfl, ?_⟩
    rw [hroles]
    refine List.forall₂_same.mpr fun e he => ?_
    split_ifs with heq
    -- the role that is meant is missing, so this entry is for another one
    · refine RoleEntry.amended_self (heq ▸ hname) fun hrole => ?_
      obtain ⟨f, hf⟩ := hasRole_iff.mp ⟨e, he, heq, hrole⟩
      exact Option.some_ne_none f (hf.symm.trans hold)
    · rfl
  | some old =>
    obtain ⟨hmem, hmine, hrole⟩ := roleOf?_eq_some hold
    rw [hold] at hchanged hfold
    obtain ⟨new, rfl, hamended⟩ := amended_changedEntry hrole hchanged
    have happly : u.updateRole old new = .ok t' := apply_singleton hfold
    refine ⟨people_of_updateRole happly, ?_⟩
    have hrows := roles_of_updateRole (hroles ▸ h.roles) (hroles ▸ hmem) happly
    rw [hroles] at hrows
    refine hrows.imp fun e e' hrow => ?_
    obtain ⟨he, rfl⟩ := hrow
    split_ifs with heq hsame hsame
    · exact hsame ▸ hamended
    · exact RoleEntry.amended_self (heq ▸ hname) fun hother =>
        (h.roles.forall he hmem hsame).key ⟨heq.trans hmine.symm, hother.trans hrole.symm⟩
    · exact absurd (hsame ▸ hmine) heq
    · rfl

variable {cs : List Change}

theorem updated_of_makes (h : t.Lawful) (hmakes : Call.Makes superuser t (.update key c) true cs)
    (hfold : cs.foldlM Tables.apply t = .ok t') : t.Updated key c t' := by
  cases hmakes with
  | @update _ _ account changed haccount _ _ hchanged =>
    obtain ⟨hperson, hentries, -⟩ := entriesOf_ne_nil haccount
    have hmine : account.person.username = key.username := username_of_person? hperson
    obtain ⟨u, hu, hfold⟩ := bind_eq_ok.mp hfold
    have hname : (c.person account.person).username = key.username :=
      username_of_updatePerson hperson (fun hnil => hentries (by rw [hnil, List.filter_nil])) hu
    obtain ⟨hpeople, hroles⟩ :=
      roles_of_roleChanges h (roles_of_updatePerson hu) hchanged hfold (hmine ▸ hname)
    refine ⟨?_, hroles⟩
    rw [hpeople]
    refine (people_of_updatePerson h hperson hu).imp fun p p' hrow => ?_
    obtain ⟨hp, rfl⟩ := hrow
    simp only [eq_person?_iff h hp hperson]
    split_ifs with heq
    · exact (eq_person?_iff h hp hperson).mpr heq ▸ c.amended_person p
    · rfl

/-! ## Contacts of a change -/

/-- The contacts of a change have the right form, and nobody but a username has them. -/
structure AccountChange.Fits (c : AccountChange) (t : Tables) (username : String) : Prop where
  email : ∀ e ∈ c.email, Contact.isEmail e = true
    ∧ ∀ p ∈ t.people, p.email = some e → p.username = username
  phone : ∀ n ∈ c.phone, Contact.isPhone n = true
    ∧ ∀ p ∈ t.people, p.phone = some n → p.username = username

section

-- the column of addresses or that of telephone numbers, with the form of its texts
variable {column : Person → Option String} {form : String → Bool} {p : Person}

theorem all_form_iff {asked : Option String} : (∀ s ∈ asked, form s) ↔ ¬ asked.any (!form ·) := by
  cases asked <;> simp

theorem all_free_iff (h : t.Lawful) (hp : t.person? key.username = some p)
    (hunique : ∀ q ∈ t.people, ∀ s, column q = some s → column p = some s → q = p)
    (hform : form "" = false) {asked : Option String} (hasked : ∀ s ∈ asked, form s) :
    (given (asked.filter (some · ≠ column p))).all (fun s =>
        !t.people.any (fun q => column q = some s && some q.username ≠ given (some p.username))) =
          true ↔ ∀ s ∈ asked, ∀ q ∈ t.people, column q = some s → q.username = key.username := by
  have hname := username_of_person? hp
  cases asked with
  | none => simp [given]
  | some s =>
    have hempty : s ≠ "" := fun heq =>
      Bool.false_ne_true (hform.symm.trans (heq ▸ hasked s rfl))
    by_cases hsame : column p = some s
    · refine iff_of_true (by simp [given, hsame]) fun s' hs q hq hcolumn => ?_
      cases hs
      rw [hunique q hq s hcolumn hsame, hname]
    · have hfilter : given ((some s).filter (some · ≠ column p)) = some s := by
        simp [given, Option.filter_some, Ne.symm hsame, hempty]
      rw [hfilter]
      simp only [Option.all_some, Bool.not_eq_true', List.any_eq_false, Bool.and_eq_true,
        decide_eq_true_eq, not_and, not_not, Option.mem_def, Option.some.injEq, forall_eq']
      refine forall₂_congr fun q hq => imp_congr_right fun hcolumn => ?_
      -- somebody who has the contact is not the person, who has another one
      have hother : q.username ≠ key.username := fun heq =>
        hsame ((eq_person?_iff h hq hp).mpr heq ▸ hcolumn)
      refine iff_of_false (fun hgiven => hother ?_) hother
      rw [Option.some.inj (Option.filter_eq_some_iff.mp hgiven.symm).1.symm, hname]

end

theorem changeProblem?_eq_none_iff (h : t.Lawful) (hp : t.person? key.username = some p)
    (hname : c.username = none) : changeProblem? t c p = none ↔ c.Fits t key.username := by
  have hmem := List.mem_of_find?_eq_some hp
  have hemail := @all_free_iff t key Person.email Contact.isEmail p h hp
    (fun q hq s hq' hp' => by_contra fun hne =>
      (h.people.forall hq hmem hne).email (by rw [hq']; rfl) (hq'.trans hp'.symm)) (by decide)
    c.email
  have hphone := @all_free_iff t key Person.phone Contact.isPhone p h hp
    (fun q hq s hq' hp' => by_contra fun hne =>
      (h.people.forall hq hmem hne).phone (by rw [hq']; rfl) (hq'.trans hp'.symm)) (by decide)
    c.phone
  unfold changeProblem? contactsFree emailFree phoneFree
  rw [hname]
  dsimp only [Option.any_none]
  rw [if_neg Bool.false_ne_true]
  constructor
  · intro hnone
    split_ifs at hnone with he hn hfree hfree'
    rw [← all_form_iff] at he hn
    rw [Bool.not_eq_true', Bool.not_eq_false] at hfree hfree'
    exact ⟨fun e hmem => ⟨he e hmem, (hemail he).mp hfree e hmem⟩,
      fun n hmem => ⟨hn n hmem, (hphone hn).mp hfree' n hmem⟩⟩
  · rintro ⟨he, hn⟩
    have he' := fun e hmem => (he e hmem).1
    have hn' := fun n hmem => (hn n hmem).1
    rw [if_neg (all_form_iff.mp he'), if_neg (all_form_iff.mp hn'),
      (hemail he').mpr fun e hmem => (he e hmem).2, (hphone hn').mpr fun n hmem => (hn n hmem).2]
    rfl

/-! ## Updates of a person whose role is missing -/

theorem clash?_eq_none {others : List Person} (h : ∀ o ∈ others, p.Apart o) :
    clash? others p = none := by
  unfold clash?
  have husername : ¬ others.any (·.username = p.username) := by
    simpa using fun o ho heq => (h o ho).username heq.symm
  have hphone : ¬ (p.phone.isSome && others.any (·.phone = p.phone)) := by
    simpa using fun hsome o ho heq => (h o ho).phone hsome heq.symm
  have hemail : ¬ (p.email.isSome && others.any (·.email = p.email)) := by
    simpa using fun hsome o ho heq => (h o ho).email hsome heq.symm
  rw [if_neg husername, if_neg hphone, if_neg hemail]

theorem updatePerson_of_apart (hname : new.username = old.username)
    (h : ∀ o ∈ t.people, o.username ≠ old.username → new.Apart o) :
    ∃ t', t.updatePerson old new = .ok t' := by
  have hclash : clash? (t.people.filter (·.username ≠ old.username)) new = none :=
    clash?_eq_none fun o ho => by
      obtain ⟨ho, hother⟩ := List.mem_filter.mp ho
      exact h o ho (of_decide_eq_true hother)
  unfold updatePerson
  rw [hclash]
  by_cases hempty : (changedColumns old new).isEmpty
  · exact ⟨t, if_pos hempty⟩
  · rw [if_neg hempty, if_neg fun hother => hother.1 hname]
    exact ⟨_, rfl⟩

/-- A request for a role that is missing, which asks for nothing that concerns the role. -/
structure Database.Overlooks (d : Database) (key : RoleKey) (c : AccountChange)
    (superuser : Bool) : Prop where
  known : d.tables.entriesOf key.username ≠ []
  missing : ¬ d.tables.HasRole key
  allowed : superuser = false → ∀ e ∈ d.tables.entriesOf key.username, e.role ≠ .admin
  roleUnasked : c.username = none ∧ c.password = none ∧ c.role = none
  contacts : c.Fits d.tables key.username
  commits : d.failure = none

variable {d d' : Database} {o : Outcome}

theorem AccountChange.Fits.apart (hfits : c.Fits t key.username) (h : t.Lawful)
    (hp : t.person? key.username = some p) (hname : c.username = none) :
    ∀ q ∈ t.people, q.username ≠ p.username → (c.person p).Apart q := by
  intro q hq hother
  have hmine := username_of_person? hp
  have happart : p.Apart q := h.people.forall (List.mem_of_find?_eq_some hp) hq fun heq =>
    hother (heq ▸ rfl)
  refine ⟨fun heq => hother ?_, fun hsome heq => ?_, fun hsome heq => ?_⟩
  · rw [← heq, AccountChange.person, hname]
    rfl
  · obtain ⟨n, hn⟩ := Option.isSome_iff_exists.mp hsome
    rcases Option.or_eq_some_iff.mp hn with hasked | ⟨-, hown⟩
    · exact hother (((hfits.phone n hasked).2 q hq (heq.symm.trans hn)).trans hmine.symm)
    · exact happart.phone (hown ▸ rfl) (hown.trans (hn.symm.trans heq))
  · obtain ⟨e, he⟩ := Option.isSome_iff_exists.mp hsome
    rcases Option.or_eq_some_iff.mp he with hasked | ⟨-, hown⟩
    · exact hother (((hfits.email e hasked).2 q hq (heq.symm.trans he)).trans hmine.symm)
    · exact happart.email (hown ▸ rfl) (hown.trans (he.symm.trans heq))

theorem run_update_of_makes (hmakes : Call.Makes superuser d.tables (.update key c) true cs) :
    ∃ success : Outcome, success.number = 0 ∧ (update key c superuser).run d =
      told Outcome.ofWriteFault (Session.exec (do Session.commit cs; return success) d) := by
  cases hmakes with
  | @update _ _ account changed haccount hadmin hproblem hchanged =>
    refine ⟨{ number := 0, message := "User updated successfully.", status := 200 }, rfl, ?_⟩
    unfold update
    rw [StateT.run_bind, StateT.run_get, pure_bind, haccount]
    dsimp only
    have hallowed : ¬ ((!superuser) ∧ account.roles.any (·.1 = .admin)) := by
      rintro ⟨hsuper, hany⟩
      rw [hadmin hany] at hsuper
      exact Bool.false_ne_true hsuper
    rw [if_neg hallowed, run_settled, updateAccount, Session.exec_bind, Session.exec_tables]
    dsimp only
    rw [hproblem]
    rw [Session.exec_bind, Session.exec_ofExcept, hchanged]
    rfl

theorem number_eq_zero_iff (hmakes : Call.Makes superuser d.tables (.update key c) true cs)
    (hrun : (update key c superuser).run d = (o, d')) :
    o.number = 0 ↔ d.failure = none ∧ ∃ t', cs.foldlM Tables.apply d.tables = .ok t' := by
  obtain ⟨success, hzero, heq⟩ := run_update_of_makes hmakes
  rw [hrun, Session.exec_bind, Session.exec_commit] at heq
  cases hfold : cs.foldlM Tables.apply d.tables with
  | error fault =>
    rw [hfold] at heq
    cases heq
    refine iff_of_false (Outcome.number_ofWriteFault fault) fun hok => ?_
    obtain ⟨-, u, hu⟩ := hok
    exact Outcome.error_ne_ok hu
  | ok u =>
    rw [hfold] at heq
    cases hfailure : d.failure with
    | some failure =>
      rw [hfailure] at heq
      cases heq
      exact iff_of_false (Outcome.number_ofWriteFault _) fun hok => Option.some_ne_none _ hok.1
    | none =>
      rw [hfailure] at heq
      cases heq
      exact iff_of_true hzero ⟨rfl, u, rfl⟩

theorem account?_of_entries (h : t.Lawful) {w : String} (hentries : t.entriesOf w ≠ []) :
    ∃ account, t.account? w false = some account ∧ t.person? w = some account.person
      ∧ ∀ r ∈ account.roles, ∃ e ∈ t.entriesOf w, e.role = r.1 := by
  obtain ⟨e, he⟩ := List.exists_mem_of_ne_nil _ hentries
  obtain ⟨hmem, hname⟩ := mem_entriesOf.mp he
  obtain ⟨p, hp⟩ := Option.isSome_iff_exists.mp (person?_isSome.mpr (h.owners e hmem))
  rw [hname] at hp
  have hcounts : (t.entriesOf w).filter (counts false) = t.entriesOf w :=
    List.filter_eq_self.mpr fun _ _ => rfl
  have haccount := @account?_eq t w false p hp
  rw [hcounts, if_neg hentries] at haccount
  refine ⟨_, haccount, hp, fun r hr => ?_⟩
  obtain ⟨f, hf, rfl⟩ := List.mem_map.mp hr
  rcases List.mem_append.mp hf with hf | hf <;> exact ⟨f, (List.mem_filter.mp hf).1, rfl⟩

theorem Database.Overlooks.number_eq_zero (h : d.tables.Lawful) (hover : d.Overlooks key c superuser)
    (hrun : (update key c superuser).run d = (o, d')) : o.number = 0 := by
  obtain ⟨husername, hunasked⟩ := hover.roleUnasked
  obtain ⟨account, haccount, hperson, hroles⟩ := account?_of_entries h hover.known
  have hadmin (hany : account.roles.any (·.1 = .admin)) : superuser := by
    obtain ⟨r, hr, hadmin⟩ := List.any_eq_true.mp hany
    obtain ⟨e, he, hrole⟩ := hroles r hr
    by_contra hsuper
    exact hover.allowed (Bool.eq_false_iff.mpr hsuper) e he (hrole.trans (of_decide_eq_true hadmin))
  have hmissing : d.tables.roleOf? key.username key.role false = none :=
    Option.eq_none_iff_forall_ne_some.mpr fun f hf => hover.missing (hasRole_iff.mpr ⟨f, hf⟩)
  have hchanged : changedEntry c (d.tables.roleOf? key.username key.role false) = .ok none :=
    hmissing ▸ changedEntry_none_iff.mpr ⟨rfl, husername, hunasked⟩
  have hmakes := Call.Makes.update haccount hadmin
    ((changeProblem?_eq_none_iff h hperson husername).mpr hover.contacts) hchanged
  refine (number_eq_zero_iff hmakes hrun).mpr ⟨hover.commits, ?_⟩
  have hname : (c.person account.person).username = account.person.username := by
    rw [AccountChange.person, husername]
    rfl
  obtain ⟨u, hu⟩ := updatePerson_of_apart hname (hover.contacts.apart h hperson husername)
  refine ⟨u, ?_⟩
  rw [hmissing]
  exact bind_eq_ok.mpr ⟨u, hu, rfl⟩

/-- A successful update for a role that is missing is one of the requests that overlook it. -/
theorem overlooks_of_makes (h : d.tables.Lawful)
    (hmakes : Call.Makes superuser d.tables (.update key c) true cs)
    (hmissing : ¬ d.tables.HasRole key) (hcommits : d.failure = none) :
    d.Overlooks key c superuser := by
  cases hmakes with
  | @update _ _ account changed haccount hadmin hproblem hchanged =>
    obtain ⟨hperson, hentries, -⟩ := entriesOf_ne_nil haccount
    cases hold : d.tables.roleOf? key.username key.role false with
    | some e => exact absurd (hasRole_iff.mpr ⟨e, hold⟩) hmissing
    | none =>
      rw [hold] at hchanged
      obtain ⟨-, husername, hpassword, hrole⟩ := changedEntry_none_iff.mp hchanged
      refine ⟨fun hnil => hentries (by rw [hnil, List.filter_nil]), hmissing, fun hsuper e he hadm => ?_,
        ⟨husername, hpassword, hrole⟩, (changeProblem?_eq_none_iff h hperson husername).mp hproblem,
        hcommits⟩
      obtain ⟨he, hname⟩ := mem_entriesOf.mp he
      have hany := (account?_eq_some haccount).2 ⟨e, he, hname, hadm⟩
      exact Bool.false_ne_true (hsuper.symm.trans (hadmin hany))

/-- An update that succeeds does what it was asked for. The role that it names is there, unless the
request overlooks that it is missing. -/
theorem updates_as_asked_iff (h : d.tables.Lawful)
    (hrun : (update key c superuser).run d = (o, d')) :
    ((o.number = 0 → d.tables.HasRole key ∧ d.tables.Updated key c d'.tables) ↔
        ¬ d.Overlooks key c superuser)
      ∧ (o.number = 0 → d.tables.Updated key c d'.tables) := by
  obtain ⟨cs, hmakes, hfold⟩ := leads_update hrun
  have hupdated (hzero : o.number = 0) : d.tables.Updated key c d'.tables :=
    updated_of_makes h (decide_eq_true hzero ▸ hmakes) hfold
  refine ⟨⟨fun hasked hover => ?_, fun hover hzero => ⟨by_contra fun hmissing => hover ?_, ?_⟩⟩,
    hupdated⟩
  · exact hover.missing (hasked (hover.number_eq_zero h hrun)).1
  · rw [decide_eq_true hzero] at hmakes
    exact overlooks_of_makes h hmakes hmissing ((number_eq_zero_iff hmakes hrun).mp hzero).1
  · exact hupdated hzero

def promotion : AccountChange :=
  { name := some "Eve", phone := some "555-765-4321", password := some "secret"
    role := some .admin }

theorem office_updated_as_asked :
    ∃ o d', (update { username := "eve", role := .user } promotion false).run { tables := office } =
        (o, d')
      ∧ o.number = 0 ∧ office.HasRole { username := "eve", role := .user }
      ∧ office.Updated { username := "eve", role := .user } promotion d'.tables := by
  let run := (update { username := "eve", role := .user } promotion false).run { tables := office }
  have hzero : run.1.number = 0 := by decide
  have hrole : office.HasRole { username := "eve", role := .user } := by decide
  have hrun : (update { username := "eve", role := .user } promotion false).run
      { tables := office } = (run.1, run.2) := rfl
  have hasked := (updates_as_asked_iff lawful_office hrun).1.mpr fun hover => hover.missing hrole
  exact ⟨run.1, run.2, hrun, hzero, hasked hzero⟩

/-- The user of an office has no role of an admin, but an update for that role succeeds. -/
theorem missing_role_is_overlooked :
    ∃ o d', (update { username := "eve", role := .admin } { name := some "Eve" } false).run
        { tables := office } = (o, d')
      ∧ o.number = 0 ∧ ¬ office.HasRole { username := "eve", role := .admin }
      ∧ d'.tables ≠ office :=
  ⟨_, _, rfl, by decide⟩

end SheetIntake.Accounts
