import SheetIntake.Proofs.AccountRows
import SheetIntake.Proofs.KeptAnswers

/-!
# Requests about accounts, step by step

An answer about accounts is taken from the cache, or it is computed and kept there. A change that
succeeds forgets the keys that the patterns of a username match, and that is all that happens to the
cache.

* `Cache.run_forgetAccount` — which keys are forgotten.
* `exec_accountAnswer_absent`, `exec_accountAnswer_anew`, `exec_accountAnswer_kept` — the three ways
  to an answer, and the same for pages.
* `frame_accountAnswer`, `frame_listAccounts` — what an answer leaves as it is.
* `exec_changeAccounts_refused`, `exec_changeAccounts_made` — changes.
-/

namespace SheetIntake

open Cache.Store (content? respond textOf withText)
open Json (write)

namespace Cache

variable {c : Store}

/-! ## Deleting keys -/

theorem content?_without (c : Store) (keys : List String) (key : String) :
    (c.without keys).content? key = if key ∈ keys then none else c.content? key := by
  unfold Store.content? Store.without
  induction c.entries with
  | nil => simp [Assoc.get?]
  | cons e rest ih =>
    obtain ⟨k, entry⟩ := e
    by_cases hk : k ∈ keys
    · rw [List.filter_cons_of_neg (by simpa using hk), ih]
      by_cases hkey : key ∈ keys
      · rw [if_pos hkey, if_pos hkey]
      · have hne : k ≠ key := fun heq => hkey (heq ▸ hk)
        rw [if_neg hkey, if_neg hkey, Assoc.get?, if_neg hne]
    · rw [List.filter_cons_of_pos (by simpa using hk), Assoc.get?, Assoc.get?]
      by_cases hne : k = key
      · subst hne
        rw [if_pos rfl, if_pos rfl, if_neg hk]
      · rw [if_neg hne, if_neg hne, ih]

theorem run_delete (hc : c.reachable) (key : String) :
    (do let _ ← delete [key] : Job protocol Unit).run servers c = (.ok (), c.without [key]) := by
  have hserve : servers (.delete [key]) c =
      (.ok (c.entries.filter (fun e => e.1 ∈ [key])).length, c.without [key]) := if_pos hc
  exact Job.run_bind_ok hserve

theorem run_deleteAll (hc : c.reachable) (keys : List String) :
    ∃ c', (keys.forM (fun key => do let _ ← delete [key])).run servers c = (.ok (), c')
      ∧ c'.reachable ∧ ∀ key, c'.content? key = if key ∈ keys then none else c.content? key := by
  induction keys generalizing c with
  | nil => exact ⟨c, rfl, hc, fun key => (if_neg List.not_mem_nil).symm⟩
  | cons k keys ih =>
    obtain ⟨c', hrun, hc', hcontent⟩ := @ih (c.without [k]) hc
    refine ⟨c', (Job.run_bind_ok (run_delete hc k)).trans hrun, hc', fun key => ?_⟩
    rw [hcontent, content?_without]
    by_cases hk : key = k
    · rw [if_pos (List.mem_singleton.mpr hk), ite_self, if_pos (hk ▸ List.mem_cons_self)]
    · simp only [List.mem_cons, hk, List.not_mem_nil, false_or, if_false]

/-- The cache after the keys that patterns match were forgotten. -/
structure Forgot (patterns : List String) (c c' : Store) : Prop where
  reachable : c'.reachable = true
  content : ∀ key, c'.content? key =
    if patterns.any (keyMatches · key) then none else c.content? key

theorem get?_eq_none {key : String} {entries : List (String × Entry)} (h : key ∉ Assoc.keys entries) :
    Assoc.get? key entries = none := by
  induction entries with
  | nil => rfl
  | cons e rest ih =>
    obtain ⟨k, entry⟩ := e
    have hne : k ≠ key := fun heq => h (heq ▸ List.mem_cons_self)
    rw [Assoc.get?, if_neg hne, ih (fun hrest => h (.tail k hrest))]

theorem run_forgetPattern (hc : c.reachable) (pattern : String) :
    ∃ c', (do let keys ← keys pattern
              keys.forM (fun key => do let _ ← delete [key]) : Job protocol Unit).run servers c =
        (.ok (), c')
      ∧ Forgot [pattern] c c' := by
  let found := Store.sorted ((Assoc.keys c.entries).filter (keyMatches pattern))
  have hserve : (keys pattern).run servers c = (.ok found, c) := if_pos hc
  obtain ⟨c', hrun, hc', hcontent⟩ := run_deleteAll hc found
  refine ⟨c', (Job.run_bind_ok hserve).trans hrun, hc', fun key => ?_⟩
  rw [hcontent, List.any_cons, List.any_nil, Bool.or_false]
  have hmem : key ∈ found ↔ key ∈ Assoc.keys c.entries ∧ keyMatches pattern key := by
    simp only [found, Store.sorted, List.mem_mergeSort, List.mem_filter]
  by_cases hmatches : keyMatches pattern key
  · split
    · rfl
    · next hnot =>
      -- what is not found was not there
      have habsent : key ∉ Assoc.keys c.entries := fun h => hnot (hmem.mpr ⟨h, hmatches⟩)
      rw [Store.content?, get?_eq_none habsent]
      rfl
  · rw [if_neg hmatches, if_neg (fun h => hmatches (hmem.mp h).2)]

theorem run_forgetAccount (hc : c.reachable) (username : String) (lists : Bool) :
    ∃ c', (forgetAccount username lists).run servers c = (.ok (), c')
      ∧ Forgot (accountPatterns username lists) c c' := by
  unfold forgetAccount
  induction accountPatterns username lists generalizing c with
  | nil => exact ⟨c, rfl, hc, fun key => rfl⟩
  | cons pattern patterns ih =>
    obtain ⟨c₁, hrun₁, h₁⟩ := run_forgetPattern hc pattern
    obtain ⟨c₂, hrun₂, h₂⟩ := ih h₁.reachable
    refine ⟨c₂, (Job.run_bind_ok hrun₁).trans hrun₂, h₂.reachable, fun key => ?_⟩
    rw [h₂.content, h₁.content, List.any_cons, List.any_cons, List.any_nil, Bool.or_false]
    cases keyMatches pattern key with
    | true | false => simp

end Cache

namespace Service

open Accounts

/-! ## Requests step by step -/

namespace Office

variable {α β : Type} {o o' : Office}

/-- The result of a request and the office after it. -/
def exec (x : Action α) (o : Office) : Except Fault α × Office :=
  StateT.run (ExceptT.run x) o

theorem exec_bind_ok {x : Action α} {f : α → Action β} {a : α} (h : exec x o = (.ok a, o')) :
    exec (x >>= f) o = exec (f a) o' := by
  unfold exec at h ⊢
  change StateT.run (ExceptT.run x >>= ExceptT.bindCont f) o = _
  rw [StateT.run_bind, h]
  rfl

theorem exec_bind_error {x : Action α} {f : α → Action β} {fault : Fault}
    (h : exec x o = (.error fault, o')) : exec (x >>= f) o = (.error fault, o') := by
  unfold exec at h ⊢
  change StateT.run (ExceptT.run x >>= ExceptT.bindCont f) o = _
  rw [StateT.run_bind, h]
  rfl

theorem exec_withCache {job : Job Cache.protocol α} {result : Except Fault α} {cache : Cache.Store}
    (h : job.run Cache.servers o.cache = (result, cache)) :
    exec (withCache job) o = (result, { o with cache }) := by
  have hrun : exec (withCache job) o = ((job.run Cache.servers o.cache).1,
      { o with cache := (job.run Cache.servers o.cache).2 }) := rfl
  rw [hrun, h]

theorem exec_withAccounts {operation : StateM Database α} {a : α} {accounts : Database}
    (h : operation.run o.accounts = (a, accounts)) :
    exec (withAccounts operation) o = (.ok a, { o with accounts }) := by
  have hrun : exec (withAccounts operation) o = (.ok (operation.run o.accounts).1,
      { o with accounts := (operation.run o.accounts).2 }) := rfl
  rw [hrun, h]

theorem exec_tables (o : Office) : exec tables o = (.ok o.accounts.tables, o) := rfl

theorem exec_kept (hc : o.cache.reachable) (key : String) :
    exec (kept key) o = ((o.cache.textOf key).map (Option.filter (· ≠ "")), o) := by
  have hget : (Cache.get key).run Cache.servers o.cache = (o.cache.textOf key, o.cache) := if_pos hc
  cases htext : o.cache.textOf key with
  | error fault =>
    rw [htext] at hget
    exact exec_bind_error (exec_withCache hget)
  | ok found =>
    rw [htext] at hget
    exact exec_bind_ok (exec_withCache hget)

theorem exec_kept_none (hc : o.cache.reachable) {key : String}
    (hkey : o.cache.content? key = none) : exec (kept key) o = (.ok none, o) := by
  rw [exec_kept hc, textOf, hkey]
  rfl

theorem exec_kept_written (hc : o.cache.reachable) {key : String} {v : Value}
    (hkey : o.cache.content? key = some (.text (write .line v))) :
    exec (kept key) o = (.ok (some (write .line v)), o) := by
  rw [exec_kept hc, textOf, hkey]
  simp [Except.map, write_ne_empty]

def remember (s : Settings) (o : Office) (key : String) (document : Value) : Office :=
  { o with cache := { o.cache with
      entries := Assoc.put key
        { content := .text (Json.write .line document), lifetime := some s.cacheSeconds }
        o.cache.entries } }

variable {s : Settings} {key : String} {document : Value}

theorem content?_remember_self :
    (remember s o key document).cache.content? key = some (.text (write .line document)) := by
  unfold remember content?
  rw [Assoc.get?_put_self]
  rfl

theorem content?_remember_of_ne {other : String} (h : other ≠ key) :
    (remember s o key document).cache.content? other = o.cache.content? other := by
  unfold remember content?
  rw [Assoc.get?_put_of_ne h]

theorem exec_keep (hc : o.cache.reachable) (hs : s.cacheSeconds ≠ 0) :
    exec (keep s key document) o = (.ok (), remember s o key document) := by
  have hlives : ¬ (s.cacheSeconds : Int) ≤ 0 := by omega
  refine exec_withCache (?_ : Cache.servers (.set _ _ _) o.cache = _)
  rw [Cache.servers_of_reachable hc]
  unfold respond withText Cache.stored
  dsimp only
  rw [Outcome.ok_bind, if_neg (by simpa using hlives)]
  rfl

theorem exec_keep_zero (hc : o.cache.reachable) (hs : s.cacheSeconds = 0) :
    exec (keep s key document) o = (.error .invalidExpiry, o) := by
  refine exec_withCache (?_ : Cache.servers (.set _ _ _) o.cache = _)
  rw [Cache.servers_of_reachable hc]
  unfold respond withText Cache.stored
  dsimp only
  rw [Outcome.ok_bind, if_pos (by simp [hs])]
  rfl

/-- What may change when an answer is kept under a key. -/
structure Frame (key : String) (o o' : Office) : Prop where
  accounts : o'.accounts = o.accounts
  reachable : o'.cache.reachable = o.cache.reachable
  others : ∀ other, other ≠ key → o'.cache.content? other = o.cache.content? other

theorem Frame.refl (key : String) (o : Office) : Frame key o o :=
  ⟨rfl, rfl, fun _ _ => rfl⟩

theorem frame_remember : Frame key o (remember s o key document) :=
  ⟨rfl, rfl, fun _ h => content?_remember_of_ne h⟩

end Office

open Office

variable {s : Settings} {o : Office} {key username : String} {onlyActive withRoles : Bool}

/-! ## Answers about an account -/

def computed (s : Settings) (key username : String) (onlyActive withRoles : Bool) : Action Value := do
  match (← tables).account? username onlyActive with
  | none => throw (.rejected 404 (.str "User not found"))
  | some account =>
    keep s key (account.document withRoles)
    return account.document withRoles

theorem exec_computed_none (h : o.accounts.tables.account? username onlyActive = none) :
    exec (computed s key username onlyActive withRoles) o =
      (.error (.rejected 404 (.str "User not found")), o) := by
  refine (exec_bind_ok (exec_tables o)).trans ?_
  rw [h]
  rfl

section

variable (hc : o.cache.reachable = true)

include hc

variable {account : Account}

theorem exec_computed_some (hs : s.cacheSeconds ≠ 0)
    (h : o.accounts.tables.account? username onlyActive = some account) :
    exec (computed s key username onlyActive withRoles) o =
      (.ok (account.document withRoles), remember s o key (account.document withRoles)) := by
  refine (exec_bind_ok (exec_tables o)).trans ?_
  rw [h]
  exact exec_bind_ok (exec_keep hc hs)

theorem exec_computed_zero (hs : s.cacheSeconds = 0)
    (h : o.accounts.tables.account? username onlyActive = some account) :
    exec (computed s key username onlyActive withRoles) o = (.error .invalidExpiry, o) := by
  refine (exec_bind_ok (exec_tables o)).trans ?_
  rw [h]
  exact exec_bind_error (exec_keep_zero hc hs)

theorem exec_accountAnswer_absent (hkey : o.cache.content? key = none) (useCache : Bool) :
    exec (accountAnswer s key username onlyActive withRoles useCache) o =
      exec (computed s key username onlyActive withRoles) o := by
  refine (exec_bind_ok (exec_kept_none hc hkey)).trans ?_
  cases useCache <;> rfl

theorem exec_accountAnswer_anew {v : Value}
    (hkey : o.cache.content? key = some (.text (write .line v))) :
    exec (accountAnswer s key username onlyActive withRoles false) o =
      exec (computed s key username onlyActive withRoles) o :=
  exec_bind_ok (exec_kept_written hc hkey)

theorem exec_accountAnswer_kept
    (hkey : o.cache.content? key = some (.text (write .line (account.document withRoles)))) :
    exec (accountAnswer s key username onlyActive withRoles true) o =
      (.ok (account.document withRoles), o) := by
  obtain ⟨kept, hkept, hsame⟩ := Outcome.map_eq_ok.mp (keptAccount_write account withRoles)
  have hread : exec (Office.ofExcept
      (keptAccount (write .line (account.document withRoles)) withRoles)) o = (.ok kept, o) := by
    rw [hkept]
    rfl
  refine (exec_bind_ok (exec_kept_written hc hkey)).trans ((exec_bind_ok hread).trans ?_)
  rw [hsame]
  rfl

theorem frame_computed : Frame key o (exec (computed s key username onlyActive withRoles) o).2 := by
  cases haccount : o.accounts.tables.account? username onlyActive with
  | none =>
    rw [exec_computed_none haccount]
    exact .refl key o
  | some account =>
    by_cases hs : s.cacheSeconds = 0
    · rw [exec_computed_zero hc hs haccount]
      exact .refl key o
    · rw [exec_computed_some hc hs haccount]
      exact frame_remember

/-- Whatever is answered about an account, the accounts stay as they are, and so does all that is
kept under other keys. -/
theorem frame_accountAnswer (useCache : Bool) :
    Frame key o (exec (accountAnswer s key username onlyActive withRoles useCache) o).2 := by
  have hkept := exec_kept hc key
  unfold accountAnswer
  cases htext : (o.cache.textOf key).map (Option.filter (· ≠ "")) with
  | error fault =>
    rw [htext] at hkept
    rw [exec_bind_error hkept]
    exact .refl key o
  | ok found =>
    rw [htext] at hkept
    rw [exec_bind_ok hkept]
    cases (if useCache then found else none) with
    | none => exact frame_computed hc
    | some text =>
      dsimp only
      cases keptAccount text withRoles with
      | error fault | ok account => exact .refl key o

end

/-! ## Answers with a page -/

def pageDocument (t : Tables) (q : Listing) : Value :=
  (t.page q.onlyActive q.limit q.page).document q.withRoles

def computedPage (s : Settings) (q : Listing) : Action Value := do
  let page := (← tables).page q.onlyActive q.limit q.page
  keep s (listingKey q) (page.document q.withRoles)
  return page.document q.withRoles

section

variable {q : Listing} (hc : o.cache.reachable = true)

include hc

theorem exec_computedPage (hs : s.cacheSeconds ≠ 0) :
    exec (computedPage s q) o = (.ok (pageDocument o.accounts.tables q),
      remember s o (listingKey q) (pageDocument o.accounts.tables q)) :=
  (exec_bind_ok (exec_tables o)).trans (exec_bind_ok (exec_keep hc hs))

theorem exec_computedPage_zero (hs : s.cacheSeconds = 0) :
    exec (computedPage s q) o = (.error .invalidExpiry, o) :=
  (exec_bind_ok (exec_tables o)).trans (exec_bind_error (exec_keep_zero hc hs))

theorem exec_listAccounts_absent (hkey : o.cache.content? (listingKey q) = none) :
    exec (listAccounts s q) o = exec (computedPage s q) o := by
  refine (exec_bind_ok (exec_kept_none hc hkey)).trans ?_
  cases q.useCache <;> rfl

theorem exec_listAccounts_anew (huse : q.useCache = false) {v : Value}
    (hkey : o.cache.content? (listingKey q) = some (.text (write .line v))) :
    exec (listAccounts s q) o = exec (computedPage s q) o := by
  refine (exec_bind_ok (exec_kept_written hc hkey)).trans ?_
  rw [huse]
  rfl

theorem exec_listAccounts_kept (huse : q.useCache) {t : Tables}
    (hkey : o.cache.content? (listingKey q) = some (.text (write .line (pageDocument t q)))) :
    exec (listAccounts s q) o = (.ok (pageDocument t q), o) := by
  have hparsed : Cache.parsed (write .line (pageDocument t q)) = .ok (pageDocument t q) :=
    parsed_write (distinct_page _ _)
  refine (exec_bind_ok (exec_kept_written hc hkey)).trans ?_
  rw [huse, if_pos rfl]
  dsimp only
  rw [hparsed]
  rfl

theorem frame_listAccounts : Frame (listingKey q) o (exec (listAccounts s q) o).2 := by
  have hkept := exec_kept hc (listingKey q)
  unfold listAccounts
  cases htext : (o.cache.textOf (listingKey q)).map (Option.filter (· ≠ "")) with
  | error fault =>
    rw [htext] at hkept
    rw [exec_bind_error hkept]
    exact .refl _ o
  | ok found =>
    rw [htext] at hkept
    rw [exec_bind_ok hkept]
    cases (if q.useCache then found else none) with
    | some text => exact .refl _ o
    | none =>
      change Frame (listingKey q) o (exec (computedPage s q) o).2
      by_cases hs : s.cacheSeconds = 0
      · rw [exec_computedPage_zero hc hs]
        exact .refl _ o
      · rw [exec_computedPage hc hs]
        exact frame_remember

end

/-! ## Changes -/

variable {operation : StateM Database Accounts.Outcome} {outcome : Accounts.Outcome} {d : Database}

theorem exec_changeAccounts_refused (hrun : operation.run o.accounts = (outcome, d))
    (hfailed : outcome.number ≠ 0) (data : Value) :
    exec (changeAccounts operation username data) o =
      (.error (.rejected outcome.status (.str outcome.message)), { o with accounts := d }) := by
  unfold changeAccounts
  rw [exec_bind_ok (exec_withAccounts hrun), if_pos hfailed]
  rfl

theorem exec_changeAccounts_made (hc : o.cache.reachable)
    (hrun : operation.run o.accounts = (outcome, d)) (hzero : outcome.number = 0) (data : Value) :
    ∃ cache, exec (changeAccounts operation username data) o =
        (.ok (changeAnswer outcome data), { cache, accounts := d })
      ∧ Cache.Forgot (Cache.accountPatterns username true) o.cache cache := by
  obtain ⟨cache, hforget, hforgot⟩ := Cache.run_forgetAccount hc username true
  refine ⟨cache, ?_, hforgot⟩
  unfold changeAccounts
  rw [exec_bind_ok (exec_withAccounts hrun), if_neg (not_not.mpr hzero)]
  have hcache : exec (withCache (Cache.forgetAccount username true)) { o with accounts := d } =
      (.ok (), { cache, accounts := d }) := exec_withCache hforget
  exact exec_bind_ok hcache

end Service

end SheetIntake
