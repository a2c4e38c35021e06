import SheetIntake.Proofs.AccountCache

/-!
# Requests about accounts, one after the other

Admins ask about accounts and change them, in any order. From the requests and from which of them
succeeded one can tell what became of the kept answer to a question: there is none, it is current, or
it is out of date. The last comes from the creation of an account that is there already. It gains a
role then, and the kept answers about it are not forgotten.

* `AccountRequest`, `serveAll` — requests by any admins.
* `Freshness.of_foldl_eq_outdated` — what makes an answer out of date.
-/

namespace SheetIntake.Service

open Accounts Office

/-! ## Requests -/

inductive AccountRequest where
  | me (username : String)
  | search (admin : String) (q : Search)
  | list (q : Listing)
  | create (admin : RoleEntry) (a : NewAccount)
  | update (admin : RoleEntry) (key : RoleKey) (change : AccountChange)
  | delete (admin : RoleEntry) (key : RoleKey) (completely : Bool) (today : Date)

def succeeded {α : Type} (x : Action α) (o : Office) : Bool × Office :=
  ((exec x o).1.isOk, (exec x o).2)

def AccountRequest.serve (s : Settings) : AccountRequest → Office → Bool × Office
  | .me username => succeeded (myInfo s username)
  | .search admin q => succeeded (searchAccount s admin q)
  | .list q => succeeded (listAccounts s q)
  | .create admin a => succeeded (createAccount s admin a)
  | .update admin key change => succeeded (updateAccount s admin key change)
  | .delete admin key completely today => succeeded (deleteAccount s admin key completely today)

/-- Serves requests one after the other. The log tells which of them succeeded. -/
def serveAll (s : Settings) : List AccountRequest → Office → List (AccountRequest × Bool) × Office
  | [], o => ([], o)
  | r :: rest, o =>
    let (ok, o) := r.serve s o
    let (log, o) := serveAll s rest o
    ((r, ok) :: log, o)

/-- Whether a successful change of a username deletes what is kept under a key. -/
def forgets (username key : String) : Bool :=
  (Cache.accountPatterns username true).any (Cache.keyMatches · key)

/-- What is known of the kept answer to a question. -/
inductive Freshness where
  | absent
  | current
  | outdated
  deriving DecidableEq, Repr

/-- What is known of the kept answer to a question of an admin after a request, which succeeded or
not. -/
def Freshness.after (admin : String) (q : Search) (f : Freshness) :
    AccountRequest × Bool → Freshness
  | (.search admin' q', true) =>
    if searchKey admin' q' = searchKey admin q ∧ (f = .absent ∨ q'.useCache = false) then .current
    else f
  | (.create _ a, true) =>
    if forgets "" (searchKey admin q) then .absent
    else if a.person.username = q.username ∧ q.withRoles = true ∧ f = .current then .outdated
    else f
  | (.update _ key _, true) => if forgets key.username (searchKey admin q) then .absent else f
  | (.delete _ key _ _, true) => if forgets key.username (searchKey admin q) then .absent else f
  | _ => f

/-- What is known of the kept answer to a question after requests. -/
def freshness (admin : String) (q : Search) (log : List (AccountRequest × Bool)) : Freshness :=
  log.foldl (Freshness.after admin q) .absent

namespace Freshness

variable {admin admin' : String} {q q' : Search} {f : Freshness}

theorem after_search_self (h : searchKey admin' q' = searchKey admin q) (ok : Bool) :
    f.after admin q (.search admin' q', ok) =
      if ok ∧ (f = .absent ∨ q'.useCache = false) then .current else f := by
  cases ok with
  | false => simp [Freshness.after]
  | true => simp [Freshness.after, h]

theorem after_search_of_ne (h : searchKey admin' q' ≠ searchKey admin q) (ok : Bool) :
    f.after admin q (.search admin' q', ok) = f := by
  cases ok with
  | false => rfl
  | true => simp [Freshness.after, h]

theorem after_update (changer : RoleEntry) (key : RoleKey) (c : AccountChange) (ok : Bool) :
    f.after admin q (.update changer key c, ok) =
      if ok ∧ forgets key.username (searchKey admin q) = true then .absent else f := by
  cases ok with
  | false | true => simp [Freshness.after]

theorem after_delete (deleter : RoleEntry) (key : RoleKey) (completely : Bool) (today : Date)
    (ok : Bool) : f.after admin q (.delete deleter key completely today, ok) =
      if ok ∧ forgets key.username (searchKey admin q) = true then .absent else f := by
  cases ok with
  | false | true => simp [Freshness.after]

/-- Only a creation makes an answer that tells roles out of date. -/
theorem of_after_eq_outdated {e : AccountRequest × Bool} (h : f.after admin q e = .outdated) :
    f = .outdated ∨ q.withRoles ∧ ∃ creator a, e = (.create creator a, true)
      ∧ a.person.username = q.username := by
  obtain ⟨r, ok⟩ := e
  cases r with
  | me username | list l => exact .inl h
  | search admin' q' =>
    by_cases hkey : searchKey admin' q' = searchKey admin q
    · rw [after_search_self hkey] at h
      split at h
      · cases h
      · exact .inl h
    · rw [after_search_of_ne hkey] at h
      exact .inl h
  | create creator a =>
    cases ok with
    | false => exact .inl h
    | true =>
      simp only [Freshness.after] at h
      split at h
      · cases h
      · split at h
        · next hcreated => exact .inr ⟨hcreated.2.1, creator, a, rfl, hcreated.1⟩
        · exact .inl h
  | update changer key c =>
    rw [after_update] at h
    split at h
    · cases h
    · exact .inl h
  | delete deleter key completely today =>
    rw [after_delete] at h
    split at h
    · cases h
    · exact .inl h

theorem of_foldl_eq_outdated {log : List (AccountRequest × Bool)}
    (h : log.foldl (Freshness.after admin q) f = .outdated) :
    f = .outdated ∨ q.withRoles ∧ ∃ creator a, (.create creator a, true) ∈ log
      ∧ a.person.username = q.username := by
  induction log generalizing f with
  | nil => exact .inl h
  | cons e rest ih =>
    rcases ih h with hafter | ⟨hroles, creator, a, hmem, hname⟩
    · rcases of_after_eq_outdated hafter with hf | ⟨hroles, creator, a, rfl, hname⟩
      · exact .inl hf
      · exact .inr ⟨hroles, creator, a, .head _, hname⟩
    · exact .inr ⟨hroles, creator, a, .tail e hmem, hname⟩

end Freshness

/-! ## One request -/

variable {s : Settings} {o : Office} {r : AccountRequest}

/-- What a request asks to be changed: the call, with the rights of the superuser or without, and the
username whose answers are forgotten. -/
def AccountRequest.call? (s : Settings) : AccountRequest → Option (Bool × Call × String)
  | .create admin a => some (isFirstAdmin s admin, .create a, "")
  | .update admin key c => some (isFirstAdmin s admin, .update key c, key.username)
  | .delete admin key true _ => some (isFirstAdmin s admin, .remove key, key.username)
  | .delete admin key false today => some (isFirstAdmin s admin, .deactivate key today, key.username)
  | _ => none

theorem succeeded_changeAccounts (hc : o.cache.reachable)
    (operation : StateM Database Accounts.Outcome) (username : String) (data : Value) :
    ∃ outcome d, operation.run o.accounts = (outcome, d) ∧ (outcome.number ≠ 0
          ∧ succeeded (changeAccounts operation username data) o = (false, { o with accounts := d })
        ∨ outcome.number = 0 ∧ ∃ cache,
          succeeded (changeAccounts operation username data) o = (true, { cache, accounts := d })
            ∧ Cache.Forgot (Cache.accountPatterns username true) o.cache cache) := by
  obtain ⟨outcome, d, hrun⟩ : ∃ outcome d, operation.run o.accounts = (outcome, d) := ⟨_, _, rfl⟩
  refine ⟨outcome, d, hrun, ?_⟩
  unfold succeeded
  by_cases hzero : outcome.number = 0
  · obtain ⟨cache, hexec, hforgot⟩ := @exec_changeAccounts_made o username operation outcome d hc hrun
      hzero data
    refine .inr ⟨hzero, cache, ?_, hforgot⟩
    rw [hexec]
    rfl
  · refine .inl ⟨hzero, ?_⟩
    rw [exec_changeAccounts_refused hrun hzero data]
    rfl

theorem serve_change (hc : o.cache.reachable) {superuser : Bool} {call : Call}
    {username : String} (hcall : r.call? s = some (superuser, call, username)) :
    ∃ outcome d, call.run superuser o.accounts = (outcome, d)
      ∧ (outcome.number ≠ 0 ∧ r.serve s o = (false, { o with accounts := d })
        ∨ outcome.number = 0 ∧ ∃ cache, r.serve s o = (true, { cache, accounts := d })
            ∧ Cache.Forgot (Cache.accountPatterns username true) o.cache cache) := by
  cases r with
  | me | search | list => exact absurd hcall (by simp [AccountRequest.call?])
  | create | update =>
    obtain ⟨rfl, rfl, rfl⟩ : _ ∧ _ ∧ _ := by simpa [AccountRequest.call?] using hcall
    exact succeeded_changeAccounts hc _ _ _
  | delete admin key completely today =>
    cases completely
    all_goals
      obtain ⟨rfl, rfl, rfl⟩ : _ ∧ _ ∧ _ := by simpa [AccountRequest.call?] using hcall
      exact succeeded_changeAccounts hc _ _ _

end SheetIntake.Service
