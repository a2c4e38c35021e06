import SheetIntake.Proofs.AccountCalls

/-!
# What calls do to the account of a username

The account of a username is made of the person and of the entries for their roles. A call concerns
one username only: all other accounts stay as they are. Where it does not succeed, the lists of
accounts stay the same too, though a person without roles may have been added.
-/

namespace SheetIntake.Accounts

namespace Tables

variable {t t' t'' : Tables} {w : String} {onlyActive : Bool} {p old new : Person}
  {e f : RoleEntry}

/-! ## Accounts -/

def entriesOf (t : Tables) (username : String) : List RoleEntry :=
  t.roles.filter (fun e => e.username = username)

def shownRoles (es : List RoleEntry) : List (Role × Bool) :=
  (es.filter (fun e => e.role = .admin) ++ es.filter (fun e => e.role ≠ .admin)).map
    (fun e => (e.role, e.active))

theorem filter_joined (t : Tables) (w : String) (onlyActive : Bool) :
    (t.joined onlyActive).filter (·.1.username = w) =
      ((t.entriesOf w).filter (counts onlyActive)).filterMap
        (fun e => (t.person? w).map (fun p => (p, e))) := by
  unfold joined entriesOf
  rw [List.filter_filterMap, List.filterMap_filter, List.filterMap_filter, List.filterMap_filter]
  refine List.filterMap_congr (fun e _ => ?_)
  by_cases hname : e.username = w
  · subst hname
    cases hperson : t.person? e.username with
    | none => simp
    | some p =>
      have hsame : decide (p.username = e.username) :=
        decide_eq_true (username_of_person? hperson)
      simp [Option.filter_some, hsame]
  · cases hperson : t.person? e.username with
    | none => simp [hname]
    | some p =>
      have hother : decide (p.username = w) = false :=
        decide_eq_false (fun heq => hname ((username_of_person? hperson).symm.trans heq))
      simp [Option.filter_some, hother, hname]

theorem account?_eq (hperson : t.person? w = some p) : t.account? w onlyActive =
      if (t.entriesOf w).filter (counts onlyActive) = [] then none
      else some ⟨p, shownRoles ((t.entriesOf w).filter (counts onlyActive))⟩ := by
  unfold account?
  rw [filter_joined, hperson]
  simp only [Option.map_some, List.filterMap_eq_map']
  generalize (t.entriesOf w).filter (counts onlyActive) = es
  cases es with
  | nil => rfl
  | cons e es =>
    rw [if_neg (List.cons_ne_nil e es), List.map_cons, List.head?_cons, Option.map_some]
    rw [← List.map_cons, List.filter_map, List.filter_map, ← List.map_append, List.map_map]
    rfl

theorem account?_eq_none (hperson : t.person? w = none) : t.account? w onlyActive = none := by
  unfold account?
  rw [filter_joined, hperson]
  simp

theorem entriesOf_ne_nil {account : Account} (h : t.account? w onlyActive = some account) :
    t.person? w = some account.person ∧ (t.entriesOf w).filter (counts onlyActive) ≠ []
      ∧ account.roles = shownRoles ((t.entriesOf w).filter (counts onlyActive)) := by
  cases hperson : t.person? w with
  | none =>
    rw [account?_eq_none hperson] at h
    cases h
  | some p =>
    rw [account?_eq hperson] at h
    split_ifs at h with hempty
    cases h
    exact ⟨rfl, hempty, rfl⟩

theorem mem_entriesOf : e ∈ t.entriesOf w ↔ e ∈ t.roles ∧ e.username = w := by
  unfold entriesOf
  rw [List.mem_filter, decide_eq_true_eq]

theorem mem_roles_active {account : Account} {role : Role}
    (h : t.account? w onlyActive = some account) :
    (role, true) ∈ account.roles ↔ ∃ e ∈ t.entriesOf w, e.role = role ∧ e.active := by
  obtain ⟨-, -, hroles⟩ := entriesOf_ne_nil h
  rw [hroles, shownRoles, List.mem_map]
  constructor
  · rintro ⟨e, he, heq⟩
    obtain ⟨hrole, hactive⟩ := Prod.mk.inj heq
    refine ⟨e, ?_, hrole, hactive⟩
    rcases List.mem_append.mp he with he | he <;>
      exact (List.mem_filter.mp (List.mem_filter.mp he).1).1
  · rintro ⟨e, he, hrole, hactive⟩
    refine ⟨e, ?_, by rw [hrole, hactive]⟩
    have hcounts : counts onlyActive e := by simp [counts, hactive]
    simp only [List.mem_append, List.mem_filter]
    by_cases hadmin : e.role = .admin
    · exact .inl ⟨⟨he, hcounts⟩, decide_eq_true hadmin⟩
    · exact .inr ⟨⟨he, hcounts⟩, decide_eq_true hadmin⟩

/-! ## Changes that concern others -/

/-- Two tables agree about a username. -/
structure SameFor (w : String) (t t' : Tables) : Prop where
  person : t'.person? w = t.person? w
  entries : t'.entriesOf w = t.entriesOf w

theorem SameFor.refl (w : String) (t : Tables) : SameFor w t t := ⟨rfl, rfl⟩

theorem SameFor.trans (h : SameFor w t t') (h' : SameFor w t' t'') : SameFor w t t'' :=
  ⟨h'.person.trans h.person, h'.entries.trans h.entries⟩

theorem SameFor.account?_eq (h : SameFor w t t') (onlyActive : Bool) :
    t'.account? w onlyActive = t.account? w onlyActive := by
  cases hperson : t.person? w with
  | none => rw [account?_eq_none hperson, account?_eq_none (h.person.trans hperson)]
  | some p =>
    rw [Tables.account?_eq hperson, Tables.account?_eq (h.person.trans hperson), h.entries]

theorem sameFor_addPerson (hname : p.username ≠ w) (happly : t.insertPerson p = .ok t') :
    SameFor w t t' := by
  obtain ⟨-, rfl⟩ := insertPerson_eq_ok happly
  refine ⟨?_, rfl⟩
  unfold person?
  rw [List.find?_append, List.find?_singleton, decide_eq_false hname]
  exact Option.or_none

theorem sameFor_changePerson (hold : old.username ≠ w) (hnew : new.username ≠ w)
    (happly : t.updatePerson old new = .ok t') : SameFor w t t' := by
  rcases updatePerson_eq_ok happly with ⟨-, rfl⟩ | ⟨-, -, rfl⟩
  · exact .refl w _
  · exact ⟨find?_replace (fun q _ hq => decide_eq_false (hq ▸ hold)) (decide_eq_false hnew), rfl⟩

/-- Entries of the roles give way to others. The order of all other entries stays. -/
structure Exchanged (t : Tables) (gone come : List RoleEntry) (t' : Tables) : Prop where
  people : t'.people = t.people
  lawful : t.Lawful → t'.Lawful
  mem_gone : ∀ e ∈ gone, e ∈ t.roles
  mem_come : ∀ e ∈ come, e ∈ t'.roles
  filter : t.Lawful → ∀ p : RoleEntry → Bool, (∀ e ∈ gone ++ come, p e = false) →
    t'.roles.filter p = t.roles.filter p

theorem exchanged_nothing (t : Tables) : t.Exchanged [] [] t :=
  ⟨rfl, id, List.forall_mem_nil _, List.forall_mem_nil _, fun _ _ _ => rfl⟩

theorem exchanged_addRole {username : String} {role : Role} {password : PasswordHash}
    (happly : t.insertRole username role password = .ok t') :
    t.Exchanged [] [{ id := t.nextId, username, role, password }] t' := by
  refine ⟨?_, fun h => h.addRole happly, List.forall_mem_nil _, ?_, fun _ p hp => ?_⟩
  all_goals obtain ⟨-, -, rfl⟩ := insertRole_eq_ok happly
  · rfl
  · exact List.forall_mem_singleton.mpr (List.mem_append_right _ (.head _))
  · rw [List.filter_append, List.filter_singleton, List.forall_mem_singleton.mp hp]
    exact List.append_nil _

theorem exchanged_changeRole (he : e ∈ t.roles) (happly : t.updateRole e f = .ok t')
    (hid : f.id = e.id) : t.Exchanged [e] [f] t' := by
  refine ⟨people_of_updateRole happly, fun h => h.changeRole happly hid,
    List.forall_mem_singleton.mpr he, List.forall_mem_singleton.mpr ?_, fun h p hp => ?_⟩
  all_goals rcases updateRole_eq_ok happly with ⟨rfl, rfl⟩ | ⟨-, -, rfl⟩
  · exact he
  · exact List.mem_map.mpr ⟨e, he, if_pos rfl⟩
  · rfl
  · refine filter_replace (fun g hg hgid => ?_) (hp f (by simp))
    rw [h.eq_of_id hg he hgid]
    exact hp e (by simp)

theorem exchanged_removeRole (he : e ∈ t.roles) :
    t.Exchanged [e] [] { t with roles := t.roles.filter (·.id ≠ e.id) } := by
  refine ⟨rfl, fun h => h.removeRole e, List.forall_mem_singleton.mpr he, List.forall_mem_nil _,
    fun h p hp => ?_⟩
  rw [List.filter_filter]
  refine List.filter_congr (fun g hg => ?_)
  cases hgp : p g with
  | false => rfl
  | true =>
    have hid : g.id ≠ e.id := fun hid =>
      Bool.false_ne_true ((hp g (h.eq_of_id hg he hid ▸ List.mem_cons_self)).symm.trans hgp)
    rw [Bool.true_and, decide_eq_true hid]

namespace Exchanged

variable {gone come : List RoleEntry} (hx : t.Exchanged gone come t') (h : t.Lawful)

include hx h

theorem mem_iff (hgone : e ∉ gone) (hcome : e ∉ come) : e ∈ t'.roles ↔ e ∈ t.roles := by
  have hfilter := hx.filter h (· = e) fun g hg => decide_eq_false ?_
  · have hmem := congrArg (e ∈ ·) hfilter
    simpa using hmem
  · rintro rfl
    exact (List.mem_append.mp hg).elim hgone hcome

theorem stays (he : e ∈ t.roles) (hgone : e ∉ gone) : e ∈ t'.roles := by
  by_cases hcome : e ∈ come
  · exact hx.mem_come e hcome
  · exact (hx.mem_iff h hgone hcome).mpr he

theorem mem_or (he : e ∈ t'.roles) : e ∈ t.roles ∨ e ∈ come := by
  by_cases hcome : e ∈ come
  · exact .inr hcome
  by_cases hgone : e ∈ gone
  · exact .inl (hx.mem_gone e hgone)
  · exact .inl ((hx.mem_iff h hgone hcome).mp he)

end Exchanged

theorem joined_addPerson (h : t.Lawful) (happly : t.insertPerson p = .ok t') (onlyActive : Bool) :
    t'.joined onlyActive = t.joined onlyActive := by
  obtain ⟨-, rfl⟩ := insertPerson_eq_ok happly
  refine List.filterMap_congr (fun e he => ?_)
  have hfound := person?_isSome.mpr (h.owners e (List.mem_filter.mp he).1)
  obtain ⟨q, hq⟩ := Option.isSome_iff_exists.mp hfound
  unfold person? at hq ⊢
  rw [List.find?_append, hq, Option.some_or]

theorem username_of_changedColumns (h : changedColumns old new = []) :
    new.username = old.username := by
  have hnone := List.map_eq_nil_iff.mp h
  rw [List.filter_eq_nil_iff] at hnone
  have hfirst := hnone (("username", .str old.username), ("username", .str new.username))
    List.mem_cons_self
  simp only [ne_eq, decide_not, Bool.not_eq_true', decide_eq_false_iff_not, not_not] at hfirst
  exact (Value.str.inj hfirst).symm

end Tables

open Tables
open SheetIntake.Outcome (bind_eq_ok map_eq_ok)

variable {t t' : Tables} {superuser : Bool} {call : Call} {o : Outcome}

/-! ## Calls -/

def Call.subject : Call → String
  | .create a => a.person.username
  | .update key _ => key.username
  | .deactivate key _ => key.username
  | .remove key => key.username

/-- Tables after a call about a username: lawful, and the same for all others. -/
def Tables.OnlyFor (username : String) (t t' : Tables) : Prop :=
  t'.Lawful ∧ ∀ w, w ≠ username → SameFor w t t'

theorem Tables.OnlyFor.refl (h : t.Lawful) (username : String) : OnlyFor username t t :=
  ⟨h, fun w _ => .refl w t⟩

/-- The username of a person who has a role cannot change. -/
theorem username_of_updatePerson {w : String} {old new : Person}
    (hperson : t.person? w = some old) (hentries : t.entriesOf w ≠ [])
    (happly : t.updatePerson old new = .ok t') : new.username = w := by
  have hname : old.username = w := username_of_person? hperson
  rcases updatePerson_eq_ok happly with ⟨hnone, -⟩ | ⟨-, howner, -⟩
  · exact (username_of_changedColumns hnone).trans hname
  · by_contra hne
    obtain ⟨e, he⟩ := List.exists_mem_of_ne_nil _ hentries
    obtain ⟨he, heq⟩ := mem_entriesOf.mp he
    exact howner (fun hsame => hne (hsame.trans hname)) e he (heq.trans hname.symm)

/-- What a call writes about a person, before it writes about a role. -/
inductive Call.WritesPerson (superuser : Bool) (t : Tables) : Call → Tables → Prop where
  | nothing {call : Call} : WritesPerson superuser t call t
  | added {a : NewAccount} {t' : Tables} (hcontacts : contactProblem? t a.person = none)
      (happly : t.insertPerson a.person = .ok t') : WritesPerson superuser t (.create a) t'
  | changed {key : RoleKey} {c : AccountChange} {p : Person} {t' : Tables}
      (hperson : t.person? key.username = some p)
      (hadmin : ∀ e ∈ t.roles, e.username = key.username → e.role = .admin → superuser = true)
      (hproblem : changeProblem? t c p = none) (hname : (c.person p).username = key.username)
      (happly : t.updatePerson p (c.person p) = .ok t') :
      WritesPerson superuser t (.update key c) t'

/-- What a call writes about a role: entries of its username give way to others. -/
structure Call.WritesRole (superuser : Bool) (call : Call) (o : Outcome) (t : Tables)
    (gone come : List RoleEntry) (t' : Tables) : Prop where
  exchanged : t.Exchanged gone come t'
  subject : ∀ e ∈ gone ++ come, e.username = call.subject
  admin : ∀ e ∈ gone, e.role = .admin → superuser = true
  promoted : ∀ e ∈ come, e.role = .admin →
    superuser = true ∨ o.number = 0 ∧ ∃ key c, call = .update key c ∧ c.role = some .admin
  dated : ∀ e ∈ come, ∀ day, e.inactiveSince = some day →
    (∃ f ∈ gone, f.inactiveSince = some day) ∨ o.number = 0 ∧ ∃ key, call = .deactivate key day

theorem Call.WritesPerson.roles_eq (h : call.WritesPerson superuser t t') : t'.roles = t.roles := by
  cases h with
  | nothing => rfl
  | added _ happly => exact roles_of_insertPerson happly
  | changed _ _ _ _ happly => exact roles_of_updatePerson happly

theorem Call.WritesPerson.onlyFor (hwrites : call.WritesPerson superuser t t') (h : t.Lawful) :
    OnlyFor call.subject t t' := by
  cases hwrites with
  | nothing => exact .refl h _
  | added _ happly =>
    exact ⟨h.addPerson happly, fun w hw => sameFor_addPerson (Ne.symm hw) happly⟩
  | changed hperson _ _ hname happly =>
    refine ⟨h.changePerson happly, fun w hw => sameFor_changePerson ?_ ?_ happly⟩
    · exact fun heq => hw (heq.symm.trans (username_of_person? hperson))
    · exact fun heq => hw (heq.symm.trans hname)

namespace Call.WritesRole

theorem nothing (t : Tables) : call.WritesRole superuser o t [] [] t :=
  ⟨exchanged_nothing t, List.forall_mem_nil _, List.forall_mem_nil _, List.forall_mem_nil _,
    List.forall_mem_nil _⟩

variable {e f : RoleEntry}

theorem changed (happly : t.updateRole e f = .ok t') (he : e ∈ t.roles) (hid : f.id = e.id)
    (hsubject : e.username = call.subject ∧ f.username = call.subject)
    (hadmin : e.role = .admin → superuser) (hpromoted : f.role = .admin → e.role = .admin
      ∨ o.number = 0 ∧ ∃ key c, call = .update key c ∧ c.role = some .admin)
    (hdated : f.inactiveSince = e.inactiveSince
      ∨ o.number = 0 ∧ ∃ key day, call = .deactivate key day ∧ f.inactiveSince = some day) :
    call.WritesRole superuser o t [e] [f] t' where
  exchanged := exchanged_changeRole he happly hid
  subject := by simpa using hsubject
  admin := List.forall_mem_singleton.mpr hadmin
  promoted := List.forall_mem_singleton.mpr fun hrole => (hpromoted hrole).imp_left hadmin
  dated := List.forall_mem_singleton.mpr fun day hday => by
    rcases hdated with heq | ⟨hzero, key, day', rfl, hday'⟩
    · exact .inl ⟨e, .head _, heq.symm.trans hday⟩
    · cases hday'.symm.trans hday
      exact .inr ⟨hzero, key, rfl⟩

theorem removed (he : e ∈ t.roles) (hsubject : e.username = call.subject)
    (hadmin : e.role = .admin → superuser) :
    call.WritesRole superuser o t [e] [] { t with roles := t.roles.filter (·.id ≠ e.id) } :=
  ⟨exchanged_removeRole he, List.forall_mem_singleton.mpr hsubject,
    List.forall_mem_singleton.mpr hadmin, List.forall_mem_nil _, List.forall_mem_nil _⟩

theorem granted (hgrant : RoleGrant t a c) (hadmin : a.role = .admin → superuser)
    (happly : t.apply c = .ok t') :
    ∃ gone come, Call.WritesRole superuser (.create a) o t gone come t' := by
  cases hgrant with
  | added _ _ =>
    exact ⟨[], _, exchanged_addRole happly, List.forall_mem_singleton.mpr rfl,
      List.forall_mem_nil _, List.forall_mem_singleton.mpr fun hrole => .inl (hadmin hrole),
      List.forall_mem_singleton.mpr fun _ hday => absurd hday (by simp)⟩
  | activated he _ =>
    obtain ⟨hmem, hname, hrole⟩ := roleOf?_eq_some he
    exact ⟨_, _, changed happly hmem rfl ⟨hname, hname⟩ (hrole ▸ hadmin) .inl (.inl rfl)⟩

end Call.WritesRole

variable {key : RoleKey}

theorem Call.Makes.writes_update {c : AccountChange} {cs : List Change}
    (hmakes : Call.Makes superuser t (.update key c) true cs)
    (hfold : cs.foldlM Tables.apply t = .ok t') :
    ∃ u, Call.WritesPerson superuser t (.update key c) u ∧ ((c.role = none ∧ t' = u)
      ∨ ∃ e f, u.updateRole e f = .ok t' ∧ e ∈ u.roles ∧ f.id = e.id
        ∧ (e.username = key.username ∧ f.username = key.username)
        ∧ (e.role = .admin → superuser) ∧ f.role = c.role.getD e.role
        ∧ f.inactiveSince = e.inactiveSince) := by
  cases hmakes with
  | @update _ _ account changed haccount hadmin hproblem hchanged =>
    obtain ⟨hperson, hentries, -⟩ := entriesOf_ne_nil haccount
    obtain ⟨u, hu, hfold⟩ := bind_eq_ok.mp hfold
    have hname : (c.person account.person).username = key.username :=
      username_of_updatePerson hperson (fun hempty => hentries (by rw [hempty, List.filter_nil])) hu
    have hadmin (e : RoleEntry) (he : e ∈ t.roles) (hmine : e.username = key.username)
        (hrole : e.role = .admin) : superuser :=
      hadmin ((account?_eq_some haccount).2 ⟨e, he, hmine, hrole⟩)
    refine ⟨u, .changed hperson hadmin hproblem hname hu, ?_⟩
    cases hold : t.roleOf? key.username key.role false with
    | none =>
      rw [hold] at hchanged hfold
      exact .inl ⟨(changedEntry_none_iff.mp hchanged).2.2.2, (Except.ok.inj hfold).symm⟩
    | some e =>
      obtain ⟨hmem, hmine, -⟩ := roleOf?_eq_some hold
      rw [hold, changedEntry_some] at hchanged
      obtain ⟨password, -, rfl⟩ := map_eq_ok.mp hchanged
      rw [hold] at hfold
      have hname' : c.username.getD e.username = key.username := by
        rw [hmine, ← username_of_person? hperson]
        exact hname.trans (username_of_person? hperson).symm
      exact .inr ⟨e, _, apply_singleton hfold, roles_of_updatePerson hu ▸ hmem, rfl, ⟨hmine, hname'⟩,
        hadmin e hmem hmine, rfl, rfl⟩

/-- A call writes about a person and then about a role, and it may do without either. -/
theorem Call.Leads.writes (hleads : call.Leads superuser t o t') :
    ∃ u gone come, call.WritesPerson superuser t u
      ∧ call.WritesRole superuser o u gone come t' := by
  obtain ⟨cs, hmakes, hfold⟩ := hleads
  generalize hsuccess : decide (o.number = 0) = success at hmakes
  cases hmakes with
  | nothing => exact Except.ok.inj hfold ▸ ⟨t, _, _, .nothing, .nothing t⟩
  | person _ _ hcontacts =>
    exact ⟨t', _, _, .added hcontacts (apply_singleton hfold), .nothing t'⟩
  | newRole hadmin _ hcontacts hgrant =>
    obtain ⟨u, hu, hfold⟩ := bind_eq_ok.mp hfold
    have hgrant := hgrant.of_roles_eq (roles_of_insertPerson hu).symm
    obtain ⟨gone, come, hrole⟩ := WritesRole.granted hgrant hadmin (apply_singleton hfold)
    exact ⟨u, gone, come, .added hcontacts hu, hrole⟩
  | role hadmin _ hgrant =>
    obtain ⟨gone, come, hrole⟩ := WritesRole.granted hgrant hadmin (apply_singleton hfold)
    exact ⟨t, gone, come, .nothing, hrole⟩
  | @update key c account changed haccount hadmin hproblem hchanged =>
    obtain ⟨u, hperson, ⟨-, rfl⟩ | ⟨e, f, happly, he, hid, hnames, hrights, hrole, hdate⟩⟩ :=
      (Makes.update haccount hadmin hproblem hchanged).writes_update hfold
    · exact ⟨t', _, _, hperson, .nothing t'⟩
    refine ⟨u, _, _, hperson, .changed happly he hid hnames hrights (fun hf => ?_) (.inl hdate)⟩
    cases hc : c.role with
    | none => exact .inl (by rw [← hf, hrole, hc]; rfl)
    | some role =>
      have hrole : role = .admin := by rw [← hf, hrole, hc]; rfl
      exact .inr ⟨of_decide_eq_true hsuccess, key, c, rfl, hrole ▸ hc⟩
  | @deactivate key today e hadmin he =>
    obtain ⟨hmem, hname, hrole⟩ := roleOf?_eq_some he
    exact ⟨t, _, _, .nothing, .changed (apply_singleton hfold) hmem rfl ⟨hname, hname⟩
      (hrole ▸ hadmin) .inl (.inr ⟨of_decide_eq_true hsuccess, key, today, rfl, rfl⟩)⟩
  | remove hadmin he _ =>
    obtain ⟨hmem, hname, hrole⟩ := roleOf?_eq_some he
    cases apply_singleton hfold
    exact ⟨t, _, _, .nothing, .removed hmem hname (hrole ▸ hadmin)⟩

theorem Call.Leads.onlyFor (h : t.Lawful) (hleads : call.Leads superuser t o t') :
    OnlyFor call.subject t t' := by
  obtain ⟨u, gone, come, hperson, hrole⟩ := hleads.writes
  obtain ⟨hlawful, hsame⟩ := hperson.onlyFor h
  refine ⟨hrole.exchanged.lawful hlawful, fun w hw => (hsame w hw).trans ⟨?_, ?_⟩⟩
  · unfold person?
    rw [hrole.exchanged.people]
  · exact hrole.exchanged.filter hlawful _ fun e he =>
      decide_eq_false fun heq => hw (heq.symm.trans (hrole.subject e he))

theorem Call.Leads.joined_eq (h : t.Lawful) (hleads : call.Leads superuser t o t')
    (hfailed : o.number ≠ 0) (onlyActive : Bool) : t'.joined onlyActive = t.joined onlyActive := by
  obtain ⟨cs, hmakes, hfold⟩ := hleads
  rw [decide_eq_false hfailed] at hmakes
  cases hmakes with
  | nothing => rw [Except.ok.inj hfold]
  | person _ _ _ => exact joined_addPerson h (apply_singleton hfold) onlyActive

/-! ## Roles that are granted -/

/-- An account with a further active role beside those that it had. -/
structure Account.Gains (old new : Account) (role : Role) : Prop where
  person : new.person = old.person
  kept : ∀ r, (r, true) ∈ old.roles → (r, true) ∈ new.roles
  gained : (role, true) ∈ new.roles
  lacked : (role, true) ∉ old.roles

theorem RoleGrant.people_eq (hgrant : RoleGrant t a c) (happly : t.apply c = .ok t') :
    t'.people = t.people := by
  cases hgrant with
  | added _ _ =>
    obtain ⟨-, -, rfl⟩ := insertRole_eq_ok happly
    rfl
  | activated _ _ => exact people_of_updateRole happly

theorem RoleGrant.person?_eq (hgrant : RoleGrant t a c) (happly : t.apply c = .ok t') (w : String) :
    t'.person? w = t.person? w := by
  unfold person?
  rw [hgrant.people_eq happly]

theorem RoleGrant.entries (hgrant : RoleGrant t a c) (h : t.Lawful) (happly : t.apply c = .ok t') :
    (∀ e ∈ t.roles, e.active → e ∈ t'.roles)
      ∧ (∃ e ∈ t'.entriesOf a.person.username, e.role = a.role ∧ e.active)
      ∧ ∀ e ∈ t.entriesOf a.person.username, e.role = a.role → e.active = false := by
  cases hgrant with
  | added habsent _ =>
    obtain ⟨hkey, -, rfl⟩ := insertRole_eq_ok happly
    refine ⟨fun e he _ => List.mem_append_left _ he, ⟨_, mem_entriesOf.mpr
      ⟨List.mem_append_right _ (.head _), rfl⟩, rfl, rfl⟩, fun e he hrole => ?_⟩
    obtain ⟨he, hname⟩ := mem_entriesOf.mp he
    exact absurd ⟨hname, hrole⟩ (hkey e he)
  | @activated e he hinactive =>
    obtain ⟨hmem, hname, hrole⟩ := roleOf?_eq_some he
    rcases updateRole_eq_ok happly with ⟨hsame, -⟩ | ⟨hkey, -, rfl⟩
    · have hactive : true = e.active := congrArg RoleEntry.active hsame
      cases hactive.trans hinactive
    refine ⟨fun f hf hactive => ?_, ?_, fun f hf hsame => ?_⟩
    · have hid : f.id ≠ e.id := fun hid => by
        rw [h.eq_of_id hf hmem hid, hinactive] at hactive
        cases hactive
      exact List.mem_map.mpr ⟨f, hf, if_neg hid⟩
    · exact ⟨_, mem_entriesOf.mpr ⟨List.mem_map.mpr ⟨e, hmem, if_pos rfl⟩, hname⟩, hrole, rfl⟩
    · obtain ⟨hf, hfname⟩ := mem_entriesOf.mp hf
      by_contra hactive
      have hid : f.id ≠ e.id := fun hid => hactive (h.eq_of_id hf hmem hid ▸ hinactive)
      exact hkey f hf hid ⟨hfname.trans hname.symm, hsame.trans hrole.symm⟩

variable {a : NewAccount} (h : t.Lawful) {onlyActive : Bool} {account : Account}
  (haccount : t.account? a.person.username onlyActive = some account)

include h haccount

theorem RoleGrant.gains (hgrant : RoleGrant t a c) (happly : t.apply c = .ok t') :
    ∃ account', t'.account? a.person.username onlyActive = some account'
      ∧ account.Gains account' a.role := by
  obtain ⟨hstay, ⟨e, he, hrole, hactive⟩, hlacked⟩ := hgrant.entries h happly
  obtain ⟨hperson, -, -⟩ := entriesOf_ne_nil haccount
  have hperson' := (hgrant.person?_eq happly a.person.username).trans hperson
  have hcounts : e ∈ (t'.entriesOf a.person.username).filter (counts onlyActive) :=
    List.mem_filter.mpr ⟨he, by simp [counts, hactive]⟩
  have haccount' := @account?_eq t' a.person.username onlyActive account.person hperson'
  rw [if_neg (List.ne_nil_of_mem hcounts)] at haccount'
  refine ⟨_, haccount', rfl, fun r hr => ?_, ?_, fun hr => ?_⟩
  · obtain ⟨f, hf, hfrole, hfactive⟩ := (mem_roles_active haccount).mp hr
    obtain ⟨hf, hname⟩ := mem_entriesOf.mp hf
    exact (mem_roles_active haccount').mpr
      ⟨f, mem_entriesOf.mpr ⟨hstay f hf hfactive, hname⟩, hfrole, hfactive⟩
  · exact (mem_roles_active haccount').mpr ⟨e, he, hrole, hactive⟩
  · obtain ⟨f, hf, hfrole, hfactive⟩ := (mem_roles_active haccount).mp hr
    cases hfactive.symm.trans (hlacked f hf hfrole)

/-- Creating an account that is there already grants it a role. -/
theorem Call.Leads.gains (hleads : Call.Leads superuser (.create a) t o t') (hzero : o.number = 0) :
    ∃ account', t'.account? a.person.username onlyActive = some account'
      ∧ account.Gains account' a.role := by
  obtain ⟨cs, hmakes, hfold⟩ := hleads
  rw [decide_eq_true hzero] at hmakes
  cases hmakes with
  | newRole _ hnew _ _ =>
    -- an account that is found among the active ones is found among all
    obtain ⟨hperson, hentries, -⟩ := entriesOf_ne_nil haccount
    obtain ⟨e, he⟩ := List.exists_mem_of_ne_nil _ hentries
    have hall : e ∈ (t.entriesOf a.person.username).filter (counts false) :=
      List.mem_filter.mpr ⟨(List.mem_filter.mp he).1, rfl⟩
    rw [account?_eq hperson, if_neg (List.ne_nil_of_mem hall)] at hnew
    cases hnew
  | role _ _ hgrant => exact hgrant.gains h haccount (apply_singleton hfold)

end SheetIntake.Accounts
