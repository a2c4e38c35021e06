import SheetIntake.Accounts.Operations
import SheetIntake.Proofs.Outcome
import Mathlib.Tactic.SplitIfs
import Mathlib.Data.List.Pairwise

/-!
# Tables that keep to the rules of the database

Usernames, telephone numbers and addresses are unique among people, numbers are unique among roles,
a person has a role at most once, and every role belongs to a person. `Tables.Lawful` says this of
tables; a change that the database accepts leaves lawful tables lawful.

* `Tables.insertPerson_eq_ok`, `updatePerson_eq_ok`, `insertRole_eq_ok`, `updateRole_eq_ok` — what
  is known after an accepted change, and the tables that it gives.
* `Tables.Lawful.addPerson`, `changePerson`, `addRole`, `changeRole`, `removeRole` — the rules stay.
* `Tables.account?_eq_some` — an account that is found tells all roles of its person.
* `changedEntry_some`, `changedEntry_none_iff` — the entry of a role after a change.
-/

namespace SheetIntake.Accounts

/-! ## A list with some of its items replaced -/

section Replace

variable {α : Type} {P : α → Prop} [DecidablePred P] {xs : List α} {new : α}

theorem pairwise_replace {R : α → α → Prop} [Std.Symm R] (h : xs.Pairwise R)
    (hone : ∀ a b, R a b → P a → ¬ P b) (hnew : ∀ x ∈ xs, ¬ P x → R new x) :
    (xs.map (fun x => if P x then new else x)).Pairwise R := by
  refine List.pairwise_map.mpr (h.imp_of_mem (fun {a b} ha hb hab => ?_))
  by_cases hPa : P a
  · rw [if_pos hPa, if_neg (hone a b hab hPa)]
    exact hnew b hb (hone a b hab hPa)
  · split_ifs with hPb
    · exact symm (hnew a ha hPa)
    · exact hab

theorem filter_replace {p : α → Bool} (hold : ∀ x ∈ xs, P x → p x = false) (hnew : p new = false) :
    (xs.map (fun x => if P x then new else x)).filter p = xs.filter p := by
  induction xs with
  | nil => rfl
  | cons x xs ih =>
    obtain ⟨hx, hxs⟩ := List.forall_mem_cons.mp hold
    rw [List.map_cons, List.filter_cons, List.filter_cons, ih hxs]
    by_cases hP : P x
    · rw [if_pos hP, hnew, hx hP]
      rfl
    · rw [if_neg hP]

theorem find?_replace {p : α → Bool} (hold : ∀ x ∈ xs, P x → p x = false) (hnew : p new = false) :
    (xs.map (fun x => if P x then new else x)).find? p = xs.find? p := by
  rw [← List.head?_filter, filter_replace hold hnew, List.head?_filter]

end Replace

/-! ## Rules of the tables -/

/-- Two people that may stand in one table. -/
structure Person.Apart (a b : Person) : Prop where
  username : a.username ≠ b.username
  phone : a.phone.isSome = true → a.phone ≠ b.phone
  email : a.email.isSome = true → a.email ≠ b.email

theorem Person.Apart.symm {a b : Person} (h : a.Apart b) : b.Apart a where
  username := h.username.symm
  phone hsome heq := h.phone (heq ▸ hsome) heq.symm
  email hsome heq := h.email (heq ▸ hsome) heq.symm

instance : Std.Symm Person.Apart := ⟨fun _ _ => Person.Apart.symm⟩

/-- Two entries that may stand in one table. -/
structure RoleEntry.Apart (a b : RoleEntry) : Prop where
  id : a.id ≠ b.id
  key : ¬ (a.username = b.username ∧ a.role = b.role)

theorem RoleEntry.Apart.symm {a b : RoleEntry} (h : a.Apart b) : b.Apart a where
  id := h.id.symm
  key heq := h.key ⟨heq.1.symm, heq.2.symm⟩

instance : Std.Symm RoleEntry.Apart := ⟨fun _ _ => RoleEntry.Apart.symm⟩

/-- Tables that keep to the rules of the database. -/
structure Tables.Lawful (t : Tables) : Prop where
  people : t.people.Pairwise Person.Apart
  roles : t.roles.Pairwise RoleEntry.Apart
  owners : ∀ e ∈ t.roles, ∃ p ∈ t.people, p.username = e.username

namespace Tables

variable {t t' : Tables} {p old new : Person} {e f : RoleEntry}

theorem apart_of_clash? {others : List Person} (h : clash? others p = none) :
    ∀ o ∈ others, p.Apart o := by
  intro o ho
  unfold clash? at h
  split_ifs at h with husername hphone hemail
  simp only [List.any_eq_true, decide_eq_true_eq, Bool.and_eq_true, not_exists, not_and]
    at husername hphone hemail
  exact ⟨fun heq => husername o ho heq.symm, fun hsome heq => hphone hsome o ho heq.symm,
    fun hsome heq => hemail hsome o ho heq.symm⟩

theorem insertPerson_eq_ok (h : t.insertPerson p = .ok t') :
    (∀ o ∈ t.people, p.Apart o) ∧ t' = { t with people := t.people ++ [p] } := by
  unfold insertPerson at h
  split at h
  · cases h
  · next hclash => exact ⟨apart_of_clash? hclash, (Except.ok.inj h).symm⟩

theorem roles_of_insertPerson (h : t.insertPerson p = .ok t') : t'.roles = t.roles := by
  obtain ⟨-, rfl⟩ := insertPerson_eq_ok h
  rfl

theorem updatePerson_eq_ok (h : t.updatePerson old new = .ok t') :
    (changedColumns old new = [] ∧ t' = t)
      ∨ ((∀ o ∈ t.people, o.username ≠ old.username → new.Apart o)
        ∧ (new.username ≠ old.username → ∀ e ∈ t.roles, e.username ≠ old.username) ∧ t' = { t with
          people := t.people.map (fun p => if p.username = old.username then new else p) }) := by
  unfold updatePerson at h
  dsimp only at h
  by_cases hempty : (changedColumns old new).isEmpty
  · rw [if_pos hempty] at h
    exact .inl ⟨List.isEmpty_iff.mp hempty, (Except.ok.inj h).symm⟩
  rw [if_neg hempty] at h
  split at h
  · cases h
  next hrule =>
  split at hrule
  · cases hrule
  next hclash =>
  have howner : ¬ (new.username ≠ old.username
      ∧ t.roles.any (·.username = old.username)) :=
    fun howner => absurd (if_pos howner ▸ hrule) (by simp)
  refine .inr ⟨fun o ho hne => apart_of_clash? hclash o ?_, fun hne e he heq => howner ⟨hne, ?_⟩,
    (Except.ok.inj h).symm⟩
  · exact List.mem_filter.mpr ⟨ho, decide_eq_true hne⟩
  · exact List.any_eq_true.mpr ⟨e, he, decide_eq_true heq⟩

theorem roles_of_updatePerson (h : t.updatePerson old new = .ok t') : t'.roles = t.roles := by
  rcases updatePerson_eq_ok h with ⟨-, rfl⟩ | ⟨-, -, rfl⟩ <;> rfl

variable {username : String}

theorem person?_isSome : (t.person? username).isSome ↔ ∃ p ∈ t.people, p.username = username := by
  unfold person?
  simp

variable {role : Role}

theorem roleClash?_eq_none {others : List RoleEntry}
    (h : roleClash? t others username role = none) :
    (∀ e ∈ others, ¬ (e.username = username ∧ e.role = role))
      ∧ ∃ p ∈ t.people, p.username = username := by
  unfold roleClash? at h
  split_ifs at h with hkey howner
  constructor
  · intro e he heq
    exact hkey (List.any_eq_true.mpr ⟨e, he, by simp [heq]⟩)
  · rw [← person?_isSome, Option.isSome_iff_ne_none]
    simpa using howner

theorem le_foldl_max (ns : List Nat) (m : Nat) : ∀ n ∈ m :: ns, n ≤ ns.foldl max m :=
  (List.max?_eq_some_iff.mp List.max?_cons').2

theorem id_lt_nextId (he : e ∈ t.roles) : e.id < t.nextId := by
  have hle := le_foldl_max (t.roles.map RoleEntry.id) 0 e.id (.tail _ (List.mem_map_of_mem he))
  unfold nextId
  omega

theorem insertRole_eq_ok {password : PasswordHash}
    (h : t.insertRole username role password = .ok t') :
    (∀ e ∈ t.roles, ¬ (e.username = username ∧ e.role = role))
      ∧ (∃ p ∈ t.people, p.username = username)
      ∧ t' = { t with roles := t.roles ++ [{ id := t.nextId, username, role, password }] } := by
  unfold insertRole at h
  split at h
  · cases h
  · next hclash =>
    obtain ⟨hkey, howner⟩ := roleClash?_eq_none hclash
    exact ⟨hkey, howner, (Except.ok.inj h).symm⟩

theorem updateRole_eq_ok {old new : RoleEntry} (h : t.updateRole old new = .ok t') :
    (new = old ∧ t' = t)
      ∨ ((∀ e ∈ t.roles, e.id ≠ old.id → ¬ (e.username = new.username ∧ e.role = new.role))
        ∧ (∃ p ∈ t.people, p.username = new.username)
        ∧ t' = { t with roles := t.roles.map (fun e => if e.id = old.id then new else e) }) := by
  unfold updateRole at h
  by_cases heq : new = old
  · rw [if_pos heq] at h
    exact .inl ⟨heq, (Except.ok.inj h).symm⟩
  rw [if_neg heq] at h
  split at h
  · cases h
  next hclash =>
  obtain ⟨hkey, howner⟩ := roleClash?_eq_none hclash
  exact .inr ⟨fun e he hne => hkey e (List.mem_filter.mpr ⟨he, decide_eq_true hne⟩), howner,
    (Except.ok.inj h).symm⟩

theorem people_of_updateRole {old new : RoleEntry} (h : t.updateRole old new = .ok t') :
    t'.people = t.people := by
  rcases updateRole_eq_ok h with ⟨-, rfl⟩ | ⟨-, -, rfl⟩ <;> rfl

namespace Lawful

theorem eq_of_id (h : t.Lawful) (he : e ∈ t.roles) (hf : f ∈ t.roles) (hid : e.id = f.id) :
    e = f := by
  by_contra hne
  exact (h.roles.forall he hf hne).id hid

theorem addPerson (h : t.Lawful) (happly : t.insertPerson p = .ok t') : t'.Lawful := by
  obtain ⟨hapart, rfl⟩ := insertPerson_eq_ok happly
  refine ⟨?_, h.roles, fun e he => ?_⟩
  · exact List.pairwise_append.mpr ⟨h.people, List.pairwise_singleton .., fun o ho =>
      List.forall_mem_singleton.mpr (hapart o ho).symm⟩
  · obtain ⟨q, hq, hname⟩ := h.owners e he
    exact ⟨q, List.mem_append_left _ hq, hname⟩

theorem changePerson (h : t.Lawful) (happly : t.updatePerson old new = .ok t') : t'.Lawful := by
  rcases updatePerson_eq_ok happly with ⟨-, rfl⟩ | ⟨hapart, howner, rfl⟩
  · exact h
  refine ⟨?_, h.roles, fun e he => ?_⟩
  · exact pairwise_replace h.people (fun a b hab ha hb => hab.username (ha.trans hb.symm)) hapart
  · obtain ⟨q, hq, hname⟩ := h.owners e he
    refine ⟨if q.username = old.username then new else q, List.mem_map_of_mem hq, ?_⟩
    split_ifs with hold
    · -- a person whose username changes owns no role
      by_contra hne
      exact howner (fun heq => hne (heq.trans (hold.symm.trans hname))) e he (hname.symm.trans hold)
    · exact hname

theorem addRole (h : t.Lawful) {username : String} {role : Role} {password : PasswordHash}
    (happly : t.insertRole username role password = .ok t') : t'.Lawful := by
  obtain ⟨hkey, howner, rfl⟩ := insertRole_eq_ok happly
  refine ⟨h.people, List.pairwise_append.mpr ⟨h.roles, List.pairwise_singleton .., ?_⟩,
    List.forall_mem_append.mpr ⟨h.owners, List.forall_mem_singleton.mpr howner⟩⟩
  exact fun e he => List.forall_mem_singleton.mpr ⟨Nat.ne_of_lt (id_lt_nextId he), hkey e he⟩

theorem changeRole (h : t.Lawful) {old new : RoleEntry} (happly : t.updateRole old new = .ok t')
    (hid : new.id = old.id) : t'.Lawful := by
  rcases updateRole_eq_ok happly with ⟨-, rfl⟩ | ⟨hkey, howner, rfl⟩
  · exact h
  refine ⟨h.people, ?_, fun e he => ?_⟩
  · have hapart (e : RoleEntry) (he : e ∈ t.roles) (hne : e.id ≠ old.id) : e.Apart new :=
      ⟨fun heq => hne (heq.trans hid), hkey e he hne⟩
    exact pairwise_replace h.roles (fun a b hab ha hb => hab.id (ha.trans hb.symm))
      (fun e he hne => (hapart e he hne).symm)
  · obtain ⟨f, hf, rfl⟩ := List.mem_map.mp he
    split_ifs
    · exact howner
    · exact h.owners f hf

theorem removeRole (h : t.Lawful) (e : RoleEntry) :
    Lawful { t with roles := t.roles.filter (·.id ≠ e.id) } :=
  ⟨h.people, h.roles.filter _, fun e he => h.owners e (List.mem_filter.mp he).1⟩

end Lawful

/-! ## Searches -/

theorem username_of_person? (h : t.person? username = some p) : p.username = username := by
  simpa using List.find?_some h

theorem mem_joined {r : Person × RoleEntry} :
    r ∈ t.joined false ↔ r.2 ∈ t.roles ∧ t.person? r.2.username = some r.1 := by
  obtain ⟨p, e⟩ := r
  unfold joined counts
  simp

theorem roleOf?_eq_some {onlyActive : Bool} (h : t.roleOf? username role onlyActive = some e) :
    e ∈ t.roles ∧ e.username = username ∧ e.role = role := by
  have hfound := List.find?_some h
  simp only [Bool.and_eq_true, decide_eq_true_eq] at hfound
  exact ⟨List.mem_of_find?_eq_some h, hfound.1⟩

theorem account?_eq_some {account : Account} (h : t.account? username false = some account) :
    t.person? username = some account.person
      ∧ ((∃ e ∈ t.roles, e.username = username ∧ e.role = .admin) →
        account.roles.any (·.1 = .admin)) := by
  unfold account? at h
  obtain ⟨r, hr, rfl⟩ := Option.map_eq_some_iff.mp h
  have hmem := List.mem_of_mem_head? hr
  rw [List.mem_filter, mem_joined, decide_eq_true_eq] at hmem
  obtain ⟨⟨-, hperson⟩, hname⟩ := hmem
  have husername : r.2.username = username := (username_of_person? hperson).symm.trans hname
  rw [husername] at hperson
  refine ⟨hperson, fun hsome => ?_⟩
  obtain ⟨e, he, heq, hadmin⟩ := hsome
  -- the entries of the account start with those of its admin role
  rw [List.any_map, List.any_append, Bool.or_eq_true]
  left
  refine List.any_eq_true.mpr ⟨(r.1, e), ?_, by simpa using hadmin⟩
  simp only [List.mem_filter, mem_joined, decide_eq_true_eq]
  exact ⟨⟨⟨he, heq ▸ hperson⟩, hname⟩, hadmin⟩

end Tables

def changedPassword (c : AccountChange) (old : RoleEntry) : Except Fault PasswordHash :=
  match c.password with
  | none => .ok old.password
  | some password => PasswordHash.ofPassword password

theorem changedEntry_some (c : AccountChange) (old : RoleEntry) :
    changedEntry c (some old) = (changedPassword c old).map (fun password => some { old with
        username := c.username.getD old.username, password, role := c.role.getD old.role }) := by
  obtain ⟨username, name, surname, sex, phone, email, password, role⟩ := c
  cases password with
  | none => cases username <;> cases role <;> rfl
  | some password =>
    cases PasswordHash.ofPassword password <;> cases username <;> cases role <;> rfl

theorem changedEntry_none_iff {c : AccountChange} {changed : Option RoleEntry} :
    changedEntry c none = .ok changed ↔
      changed = none ∧ c.username = none ∧ c.password = none ∧ c.role = none := by
  obtain ⟨username, name, surname, sex, phone, email, password, role⟩ := c
  constructor
  · intro h
    unfold changedEntry at h
    cases username with
    | some username => cases h
    | none =>
      cases password with
      | some password =>
        dsimp only at h
        cases hpassword : PasswordHash.ofPassword password with
        | _ => rw [hpassword] at h; cases h
      | none =>
        cases role with
        | some role => cases h
        | none => exact ⟨(Except.ok.inj h).symm, rfl, rfl, rfl⟩
  · rintro ⟨rfl, rfl, rfl, rfl⟩
    rfl

end SheetIntake.Accounts
