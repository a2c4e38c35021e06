import SheetIntake.Proofs.AccountRows

/-!
# Tables after any calls

Calls with any rights lead from the empty tables to tables that keep to the rules of the database,
whatever the calls ask for and whichever of them are refused. Contacts have the right form besides,
which the database does not ask for: it comes from what the calls check before they write.

* `Call.Leads.peopleChange` — what one call does to the people.
* `tables_stay_consistent` — the tables after any calls.
-/

namespace SheetIntake.Accounts

/-- The contacts of a person have the right form, where there are any. -/
structure Person.WellFormed (p : Person) : Prop where
  email : ∀ e ∈ p.email, Contact.isEmail e = true
  phone : ∀ n ∈ p.phone, Contact.isPhone n = true

open Tables

variable {t t' : Tables} {superuser : Bool} {call : Call} {o : Outcome}

/-! ## What calls check -/

theorem wellFormed_of_contactProblem? {p : Person} (h : contactProblem? t p = none) :
    p.WellFormed := by
  unfold contactProblem? at h
  split_ifs at h with hemail hphone
  simp only [Option.any_eq_true, Bool.not_eq_true', not_exists, not_and, Bool.not_eq_false]
    at hemail hphone
  exact ⟨hemail, hphone⟩

theorem Person.WellFormed.change {p : Person} (hp : p.WellFormed) {c : AccountChange}
    (h : changeProblem? t c p = none) : (c.person p).WellFormed := by
  unfold changeProblem? at h
  split_ifs at h with _ hemail hphone
  simp only [Option.any_eq_true, Bool.not_eq_true', not_exists, not_and, Bool.not_eq_false]
    at hemail hphone
  refine ⟨fun e he => ?_, fun n hn => ?_⟩
  · rcases Option.or_eq_some_iff.mp he with he | ⟨-, he⟩
    · exact hemail e he
    · exact hp.email e he
  · rcases Option.or_eq_some_iff.mp hn with hn | ⟨-, hn⟩
    · exact hphone n hn
    · exact hp.phone n hn

/-! ## People -/

/-- What a call does to the people: nothing, one is added, or one gets other data under the same
username. -/
inductive PeopleChange (t : Tables) : List Person → Prop where
  | kept : PeopleChange t t.people
  | added {p : Person} (hproblem : contactProblem? t p = none) : PeopleChange t (t.people ++ [p])
  | changed {c : AccountChange} {p : Person} (hp : p ∈ t.people)
      (hproblem : changeProblem? t c p = none) (hname : (c.person p).username = p.username) :
      PeopleChange t (t.people.map (fun q => if q.username = p.username then c.person p else q))

theorem Call.Leads.peopleChange (hleads : call.Leads superuser t o t') :
    PeopleChange t t'.people := by
  obtain ⟨u, gone, come, hperson, hrole⟩ := hleads.writes
  rw [hrole.exchanged.people]
  cases hperson with
  | nothing => exact .kept
  | added hcontacts happly =>
    obtain ⟨-, rfl⟩ := insertPerson_eq_ok happly
    exact .added hcontacts
  | changed hperson _ hproblem hname happly =>
    rcases updatePerson_eq_ok happly with ⟨-, rfl⟩ | ⟨-, -, rfl⟩
    · exact .kept
    · exact .changed (List.mem_of_find?_eq_some hperson) hproblem
        (hname.trans (username_of_person? hperson).symm)

theorem PeopleChange.wellFormed {people : List Person} (h : PeopleChange t people)
    (hformed : ∀ p ∈ t.people, p.WellFormed) : ∀ p ∈ people, p.WellFormed := by
  cases h with
  | kept => exact hformed
  | added hproblem =>
    exact List.forall_mem_append.mpr
      ⟨hformed, List.forall_mem_singleton.mpr (wellFormed_of_contactProblem? hproblem)⟩
  | changed hp hproblem _ =>
    refine List.forall_mem_map.mpr (fun q hq => ?_)
    split_ifs
    · exact (hformed _ hp).change hproblem
    · exact hformed q hq

/-- No username of a person is ever given up. -/
theorem PeopleChange.usernames {people : List Person} (h : PeopleChange t people) :
    t.people.map Person.username <+: people.map Person.username := by
  cases h with
  | kept => exact List.prefix_rfl
  | added _ => exact List.map_append ▸ List.prefix_append ..
  | @changed c p _ _ hname =>
    have hsame : (t.people.map (fun q => if q.username = p.username then c.person p else q)).map
        Person.username = t.people.map Person.username := by
      rw [List.map_map]
      refine List.map_congr_left (fun q _ => ?_)
      rw [Function.comp_apply]
      split_ifs with hq
      · exact hname.trans hq.symm
      · rfl
    exact ⟨[], (List.append_nil _).trans hsame.symm⟩

/-! ## Many calls -/

/-- A call with the rights that it is made with, and maybe with a commit that fails. -/
structure Attempt where
  call : Call
  superuser : Bool
  failure : Option CommitFailure := none

/-- Carries out calls one after the other. The log tells their outcomes. -/
def runAttempts : List Attempt → Tables → List (Attempt × Outcome) × Tables
  | [], t => ([], t)
  | a :: rest, t =>
    let (o, d) := a.call.run a.superuser { tables := t, failure := a.failure }
    let (log, t') := runAttempts rest d.tables
    ((a, o) :: log, t')

variable {log : List (Attempt × Outcome)}

theorem runAttempts_cons {a : Attempt} {rest : List Attempt}
    (h : runAttempts (a :: rest) t = (log, t')) :
    ∃ o u log', a.call.Leads a.superuser t o u ∧ runAttempts rest u = (log', t')
      ∧ log = (a, o) :: log' := by
  obtain ⟨hlog, htables⟩ := Prod.mk.inj h
  have hleads := @Call.leads a.superuser { tables := t, failure := a.failure } _ _ a.call rfl
  exact ⟨_, _, _, hleads, Prod.ext rfl htables, hlog.symm⟩

theorem runAttempts_keeps {P : Tables → Prop}
    (hstep : ∀ {call superuser o t t'}, Call.Leads superuser call t o t' → P t → P t')
    {attempts : List Attempt} (hrun : runAttempts attempts t = (log, t')) (h : P t) : P t' := by
  induction attempts generalizing t log with
  | nil => exact (Prod.mk.inj hrun).2 ▸ h
  | cons a rest ih =>
    obtain ⟨o, u, log', hleads, hrest, -⟩ := runAttempts_cons hrun
    exact ih hrest (hstep hleads h)

/-- Tables that keep to the rules and whose contacts have the right form. -/
structure Tables.Sound (t : Tables) : Prop where
  lawful : t.Lawful
  wellFormed : ∀ p ∈ t.people, p.WellFormed

theorem Tables.sound_empty : ({} : Tables).Sound :=
  ⟨⟨.nil, .nil, List.forall_mem_nil _⟩, List.forall_mem_nil _⟩

theorem Call.Leads.sound (hleads : call.Leads superuser t o t') (h : t.Sound) : t'.Sound :=
  ⟨(hleads.onlyFor h.lawful).1, hleads.peopleChange.wellFormed h.wellFormed⟩

theorem sound_of_runAttempts {attempts : List Attempt} (hrun : runAttempts attempts {} = (log, t)) :
    t.Sound :=
  runAttempts_keeps Call.Leads.sound hrun sound_empty

/-- Consistency, column by column: usernames, addresses and telephone numbers are unique among
people, and the latter two have the right form; a username has a role at most once, and it is that of
a person. -/
structure Tables.Consistent (t : Tables) : Prop where
  usernames : (t.people.map Person.username).Nodup
  emails : (t.people.filterMap Person.email).Nodup
  phones : (t.people.filterMap Person.phone).Nodup
  emailForms : ∀ e ∈ t.people.filterMap Person.email, Contact.isEmail e = true
  phoneForms : ∀ n ∈ t.people.filterMap Person.phone, Contact.isPhone n = true
  roles : (t.roles.map (fun e => (e.username, e.role))).Nodup
  owners : ∀ e ∈ t.roles, e.username ∈ t.people.map Person.username

theorem Tables.Sound.consistent (h : t.Sound) : t.Consistent where
  usernames := List.pairwise_map.mpr (h.lawful.people.imp (·.username))
  emails := by
    refine List.pairwise_filterMap.mpr (h.lawful.people.imp (fun {a b} hab => ?_))
    rintro e he f hf rfl
    exact hab.email (by rw [he]; rfl) (he.trans hf.symm)
  phones := by
    refine List.pairwise_filterMap.mpr (h.lawful.people.imp (fun {a b} hab => ?_))
    rintro n hn m hm rfl
    exact hab.phone (by rw [hn]; rfl) (hn.trans hm.symm)
  emailForms e he := by
    obtain ⟨p, hp, hpe⟩ := List.mem_filterMap.mp he
    exact (h.wellFormed p hp).email e hpe
  phoneForms n hn := by
    obtain ⟨p, hp, hpn⟩ := List.mem_filterMap.mp hn
    exact (h.wellFormed p hp).phone n hpn
  roles := List.pairwise_map.mpr (h.lawful.roles.imp (fun hab heq => hab.key (Prod.mk.inj heq)))
  owners e he := by
    obtain ⟨p, hp, hname⟩ := h.lawful.owners e he
    exact List.mem_map.mpr ⟨p, hp, hname⟩

/-- Any calls with any rights lead from the empty tables to consistent ones. -/
theorem tables_stay_consistent (attempts : List Attempt) : (runAttempts attempts {}).2.Consistent :=
  (sound_of_runAttempts rfl).consistent

end SheetIntake.Accounts
