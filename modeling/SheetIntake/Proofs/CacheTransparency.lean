import SheetIntake.Proofs.AccountRequests
import SheetIntake.Proofs.AdminProtection

/-!
# When answers from the cache are right

A page of the list of accounts is the same whether it is taken from the cache or not, since every
change forgets all pages. An answer about an account is another matter. Changes and deletions of an
account forget the answers about it. The creation of an account does not, and an answer that tells
the roles and was kept before is wrong until it is forgotten or computed anew.

* `Holds.serveAll`, `Coherent.serveAll` — and so do all requests of a run.
* `cached_answer_eq_iff` — an answer from the cache is right exactly when it is not out of date.
* `stale_roles` — an answer that does not tell a role that the account has.
-/

namespace SheetIntake.Service

open Accounts Office

/-! ## A kept answer about an account -/

section

variable {s : Settings} {admin : String} {q : Search} {o o' : Office} {f : Freshness}

/-- What is known of the kept answer to a question is so. -/
inductive Holds (s : Settings) (admin : String) (q : Search) (o : Office) : Freshness → Prop
  | absent (hkey : o.cache.content? (searchKey admin q) = none) : Holds s admin q o .absent
  | current {account : Account} (hs : s.cacheSeconds ≠ 0)
      (haccount : o.accounts.tables.account? q.username q.onlyActive = some account)
      (hkey : o.cache.content? (searchKey admin q) =
        some (.text (Json.write .line (account.document q.withRoles)))) :
      Holds s admin q o .current
  | outdated {old new : Account} {role : Role} (hs : s.cacheSeconds ≠ 0)
      (hroles : q.withRoles = true)
      (haccount : o.accounts.tables.account? q.username q.onlyActive = some new)
      (hkey : o.cache.content? (searchKey admin q) =
        some (.text (Json.write .line (old.document q.withRoles))))
      (hgained : (role, true) ∈ new.roles) (hlacked : (role, true) ∉ old.roles) :
      Holds s admin q o .outdated

theorem account?_congr {t t' : Tables} {onlyActive : Bool}
    (h : t'.joined onlyActive = t.joined onlyActive) (username : String) :
    t'.account? username onlyActive = t.account? username onlyActive := by
  unfold Tables.account?
  rw [h]

theorem holds_remembered {account : Account} (hs : s.cacheSeconds ≠ 0)
    (haccount : o.accounts.tables.account? q.username q.onlyActive = some account) :
    Holds s admin q (remember s o (searchKey admin q) (account.document q.withRoles)) .current := by
  have hsame : (remember s o (searchKey admin q)
      (account.document q.withRoles)).accounts.tables.account? q.username q.onlyActive =
      some account := haccount
  exact .current hs hsame content?_remember_self

namespace Holds

variable (h : Holds s admin q o f)

include h

theorem congr (haccount : o'.accounts.tables.account? q.username q.onlyActive =
      o.accounts.tables.account? q.username q.onlyActive)
    (hkey : o'.cache.content? (searchKey admin q) = o.cache.content? (searchKey admin q)) :
    Holds s admin q o' f := by
  cases h with
  | absent hnone => exact .absent (hkey.trans hnone)
  | current hs hfound htext => exact .current hs (haccount.trans hfound) (hkey.trans htext)
  | outdated hs hroles hfound htext hgained hlacked =>
    exact .outdated hs hroles (haccount.trans hfound) (hkey.trans htext) hgained hlacked

theorem of_frame {key : String} (hframe : Frame key o o')
    (hkey : searchKey admin q ≠ key) : Holds s admin q o' f :=
  h.congr (by rw [hframe.accounts]) (hframe.others _ hkey)

theorem present (hf : f ≠ .absent) : s.cacheSeconds ≠ 0 ∧ ∃ old new,
      o.accounts.tables.account? q.username q.onlyActive = some new
        ∧ o.cache.content? (searchKey admin q) =
          some (.text (Json.write .line (Account.document old q.withRoles))) := by
  cases h with
  | absent hkey => exact absurd rfl hf
  | current hs haccount hkey => exact ⟨hs, _, _, haccount, hkey⟩
  | outdated hs hroles haccount hkey hgained hlacked => exact ⟨hs, _, _, haccount, hkey⟩

theorem search (hc : o.cache.reachable) (useCache : Bool) :
    let served := succeeded (accountAnswer s (searchKey admin q) q.username q.onlyActive q.withRoles
      useCache) o
    Holds s admin q served.2
      (if served.1 ∧ (f = .absent ∨ useCache = false) then .current else f) := by
  dsimp only
  unfold succeeded
  by_cases hf : f = .absent
  · subst hf
    cases h with
    | absent hkey =>
      rw [exec_accountAnswer_absent hc hkey]
      cases haccount : o.accounts.tables.account? q.username q.onlyActive with
      | none =>
        rw [exec_computed_none haccount]
        exact .absent hkey
      | some account =>
        by_cases hs : s.cacheSeconds = 0
        · rw [exec_computed_zero hc hs haccount]
          exact .absent hkey
        · rw [exec_computed_some hc hs haccount]
          exact holds_remembered hs haccount
  · obtain ⟨hs, old, new, haccount, hkey⟩ := h.present hf
    cases useCache with
    | true =>
      rw [exec_accountAnswer_kept hc hkey, if_neg (by simp [hf])]
      exact h
    | false =>
      rw [exec_accountAnswer_anew hc hkey, exec_computed_some hc hs haccount, if_pos ⟨rfl, .inr rfl⟩]
      exact holds_remembered hs haccount

variable {superuser : Bool} {outcome : Accounts.Outcome} {d : Database}
  (hlawful : o.accounts.tables.Lawful)

include hlawful

theorem refused {call : Call}
    (hleads : call.Leads superuser o.accounts.tables outcome d.tables)
    (hfailed : outcome.number ≠ 0) : Holds s admin q { o with accounts := d } f := by
  refine h.congr ?_ rfl
  exact account?_congr (hleads.joined_eq hlawful hfailed q.onlyActive) q.username

theorem made_for_others {call : Call} {username : String} {cache : Cache.Store}
    (hleads : call.Leads superuser o.accounts.tables outcome d.tables)
    (hforgot : Cache.Forgot (Cache.accountPatterns username true) o.cache cache)
    (hother : forgets username (searchKey admin q) = false → call.subject ≠ q.username) :
    Holds s admin q { cache, accounts := d }
      (if forgets username (searchKey admin q) = true then .absent else f) := by
  have hkey := hforgot.content (searchKey admin q)
  cases hforgets : forgets username (searchKey admin q) with
  | true =>
    exact .absent (hkey.trans (if_pos hforgets))
  | false =>
    have hsame := (hleads.onlyFor hlawful).2 q.username (Ne.symm (hother hforgets))
    refine h.congr (hsame.account?_eq q.onlyActive) (hkey.trans (if_neg ?_))
    exact fun hany => Bool.false_ne_true (hforgets.symm.trans hany)

theorem created (creator : RoleEntry) {a : NewAccount} {cache : Cache.Store}
    (hleads : Call.Leads superuser (.create a) o.accounts.tables outcome d.tables)
    (hzero : outcome.number = 0)
    (hforgot : Cache.Forgot (Cache.accountPatterns "" true) o.cache cache) :
    Holds s admin q { cache, accounts := d } (f.after admin q (.create creator a, true)) := by
  unfold Freshness.after
  dsimp only
  by_cases hname : a.person.username = q.username
  · have hkey := hforgot.content (searchKey admin q)
    by_cases hforgets : forgets "" (searchKey admin q)
    · rw [if_pos hforgets]
      exact .absent (hkey.trans (if_pos hforgets))
    rw [if_neg hforgets]
    replace hkey := hkey.trans (if_neg hforgets)
    cases h with
    | absent hnone =>
      rw [if_neg (by simp)]
      exact .absent (hkey.trans hnone)
    | current hs haccount htext =>
      obtain ⟨new, hnew, hgains⟩ := hleads.gains hlawful (hname ▸ haccount) hzero
      rw [hname] at hnew
      cases hroles : q.withRoles with
      | true =>
        rw [if_pos ⟨hname, rfl, rfl⟩]
        exact .outdated hs hroles hnew (hkey.trans htext) hgains.gained hgains.lacked
      | false =>
        -- without the roles, the document is that of the person
        rw [if_neg (by simp)]
        refine .current hs hnew (hkey.trans ?_)
        rw [htext, hroles]
        unfold Account.document
        rw [if_neg Bool.false_ne_true, if_neg Bool.false_ne_true, hgains.person]
    | outdated hs hroles haccount htext hgained hlacked =>
      obtain ⟨new, hnew, hgains⟩ := hleads.gains hlawful (hname ▸ haccount) hzero
      rw [hname] at hnew
      rw [if_neg (by simp)]
      exact .outdated hs hroles hnew (hkey.trans htext) (hgains.kept _ hgained) hlacked
  · have hother : ¬ (a.person.username = q.username ∧ q.withRoles ∧ f = .current) :=
      fun hsame => hname hsame.1
    rw [if_neg hother]
    exact h.made_for_others hlawful hleads hforgot (fun _ => hname)

end Holds

/-- The name of an admin who asks has no colon. Keys are names and texts joined by colons, so that
those of different questions differ then. -/
def AccountRequest.HasPlainAdmin : AccountRequest → Prop
  | .search admin _ => ':' ∉ admin.toList
  | _ => True

/-- A username that stands for itself in a pattern, where a bracket or a backslash would not, and that
is not empty: nothing is forgotten about the empty one. -/
def Matchable (username : String) : Prop :=
  username ≠ "" ∧ Literal username.toList

theorem Holds.changed {r : AccountRequest} {superuser : Bool} {call : Call} (h : Holds s admin q o f)
    (hname : Matchable q.username) (hc : o.cache.reachable) (hlawful : o.accounts.tables.Lawful)
    (hcall : r.call? s = some (superuser, call, call.subject)) : Holds s admin q (r.serve s o).2
      (if (r.serve s o).1 ∧ forgets call.subject (searchKey admin q) = true then .absent
        else f) := by
  obtain ⟨outcome, d, hrun, ⟨hfailed, hserve⟩ | ⟨hzero, cache, hserve, hforgot⟩⟩ :=
    serve_change hc hcall
  · rw [hserve, if_neg (by simp)]
    exact h.refused hlawful (Call.leads hrun) hfailed
  · have hother : forgets call.subject (searchKey admin q) = false → call.subject ≠ q.username := by
      intro hforgets heq
      rw [heq] at hforgets
      exact Bool.false_ne_true (hforgets.symm.trans (forgets_searchKey hname.1 hname.2 admin))
    have hmade := h.made_for_others hlawful (Call.leads hrun) hforgot hother
    rw [hserve]
    simpa using hmade

/-- One request keeps what is known of a kept answer. -/
theorem Holds.serve (r : AccountRequest) (h : Holds s admin q o f) (hadmin : ':' ∉ admin.toList)
    (hplain : r.HasPlainAdmin) (hname : Matchable q.username) (hc : o.cache.reachable)
    (hlawful : o.accounts.tables.Lawful) :
    Holds s admin q (r.serve s o).2 (f.after admin q (r, (r.serve s o).1)) := by
  cases r with
  | me username =>
    have hframe : Frame (myInfoKey username) o ((AccountRequest.me username).serve s o).2 :=
      frame_accountAnswer hc true
    exact h.of_frame hframe (searchKey_ne_myInfoKey admin q username)
  | list l =>
    have hframe : Frame (listingKey l) o ((AccountRequest.list l).serve s o).2 :=
      frame_listAccounts hc
    exact h.of_frame hframe (searchKey_ne_listingKey admin q l)
  | search admin' q' =>
    by_cases hkey : searchKey admin' q' = searchKey admin q
    · obtain ⟨husername, hactive, hroles⟩ := searchKey_inj hplain hadmin hkey
      have hserve : (AccountRequest.search admin' q').serve s o =
          succeeded (accountAnswer s (searchKey admin q) q.username q.onlyActive q.withRoles
            q'.useCache) o := by
        rw [← hkey, ← husername, ← hactive, ← hroles]
        rfl
      rw [Freshness.after_search_self hkey, hserve]
      exact h.search hc q'.useCache
    · rw [Freshness.after_search_of_ne hkey]
      have hframe : Frame (searchKey admin' q') o ((AccountRequest.search admin' q').serve s o).2 :=
        frame_accountAnswer hc q'.useCache
      exact h.of_frame hframe (Ne.symm hkey)
  | create creator a =>
    obtain ⟨outcome, d, hrun, ⟨hfailed, hserve⟩ | ⟨hzero, cache, hserve, hforgot⟩⟩ :=
      @serve_change s o (.create creator a) hc _ _ _ rfl
    · rw [hserve]
      exact h.refused hlawful (Call.leads hrun) hfailed
    · rw [hserve]
      exact h.created hlawful creator (Call.leads hrun) hzero hforgot
  | update changer key c =>
    rw [Freshness.after_update]
    exact @Holds.changed _ _ _ _ _ (.update changer key c) _ _ h hname hc hlawful rfl
  | delete deleter key completely today =>
    rw [Freshness.after_delete]
    cases completely with
    | true => exact @Holds.changed _ _ _ _ _ (.delete _ key true _) _ _ h hname hc hlawful rfl
    | false => exact @Holds.changed _ _ _ _ _ (.delete _ key false _) _ _ h hname hc hlawful rfl

end

/-! ## Kept pages -/

variable {s : Settings} {o o' : Office}

theorem pageDocument_of_key {l l' : Listing} (h : listingKey l = listingKey l') (t : Tables) :
    pageDocument t l = pageDocument t l' := by
  obtain ⟨hactive, hroles, hlimit, hpage⟩ := listingKey_inj h
  unfold pageDocument
  rw [hactive, hroles, hlimit, hpage]

theorem pageDocument_congr {t t' : Tables} (h : ∀ onlyActive, t'.joined onlyActive = t.joined onlyActive)
    (l : Listing) : pageDocument t' l = pageDocument t l := by
  unfold pageDocument Tables.page
  rw [h]

/-- The cache answers, the accounts are lawful, and every kept page is the page as it is now. -/
structure Coherent (s : Settings) (o : Office) : Prop where
  reachable : o.cache.reachable = true
  lawful : o.accounts.tables.Lawful
  pages : ∀ l : Listing, o.cache.content? (listingKey l) = none
    ∨ s.cacheSeconds ≠ 0 ∧ o.cache.content? (listingKey l) =
      some (.text (Json.write .line (pageDocument o.accounts.tables l)))

namespace Coherent

variable (h : Coherent s o)

include h

theorem of_frame {key : String} (hframe : Frame key o o')
    (hkey : ∀ l, key ≠ listingKey l) : Coherent s o' where
  reachable := hframe.reachable.trans h.reachable
  lawful := hframe.accounts ▸ h.lawful
  pages l := by
    rw [hframe.accounts, hframe.others _ (Ne.symm (hkey l))]
    exact h.pages l

theorem remembered (hs : s.cacheSeconds ≠ 0) (l : Listing) :
    Coherent s (remember s o (listingKey l) (pageDocument o.accounts.tables l)) where
  reachable := h.reachable
  lawful := h.lawful
  pages l' := by
    by_cases hkey : listingKey l' = listingKey l
    · refine .inr ⟨hs, ?_⟩
      rw [hkey, content?_remember_self, ← pageDocument_of_key hkey]
      rfl
    · rw [content?_remember_of_ne hkey]
      exact h.pages l'

theorem computed (l : Listing) : Coherent s (exec (computedPage s l) o).2 := by
  by_cases hs : s.cacheSeconds = 0
  · rw [exec_computedPage_zero h.reachable hs]
    exact h
  · rw [exec_computedPage h.reachable hs]
    exact h.remembered hs l

theorem list (l : Listing) : Coherent s (exec (listAccounts s l) o).2 := by
  rcases h.pages l with hnone | ⟨hs, hkey⟩
  · rw [exec_listAccounts_absent h.reachable hnone]
    exact h.computed l
  · cases huse : l.useCache with
    | true =>
      rw [exec_listAccounts_kept h.reachable huse hkey]
      exact h
    | false =>
      rw [exec_listAccounts_anew h.reachable huse hkey]
      exact h.computed l

theorem changed {r : AccountRequest} {superuser : Bool} {call : Call} {username : String}
    (hcall : r.call? s = some (superuser, call, username)) : Coherent s (r.serve s o).2 := by
  obtain ⟨outcome, d, hrun, ⟨hfailed, hserve⟩ | ⟨hzero, cache, hserve, hforgot⟩⟩ :=
    serve_change h.reachable hcall
  · rw [hserve]
    refine ⟨h.reachable, ((Call.leads hrun).onlyFor h.lawful).1, fun l => ?_⟩
    have hsame := pageDocument_congr ((Call.leads hrun).joined_eq h.lawful hfailed) l
    rw [hsame]
    exact h.pages l
  · rw [hserve]
    refine ⟨hforgot.reachable, ((Call.leads hrun).onlyFor h.lawful).1, fun l => .inl ?_⟩
    exact (hforgot.content _).trans (if_pos (forgets_listingKey username l))

theorem serve (r : AccountRequest) : Coherent s (r.serve s o).2 := by
  cases r with
  | me username =>
    exact h.of_frame (frame_accountAnswer h.reachable true) (myInfoKey_ne_listingKey username)
  | search admin q =>
    exact h.of_frame (frame_accountAnswer h.reachable q.useCache) (searchKey_ne_listingKey admin q)
  | list l => exact h.list l
  | create admin a | update admin key c => exact h.changed rfl
  | delete admin key completely today =>
    cases completely with
    | true | false => exact h.changed rfl

/-- A page from the cache is the page computed anew. -/
theorem page_eq (l : Listing) : (exec (listAccounts s { l with useCache := true }) o).1 =
      (exec (listAccounts s { l with useCache := false }) o).1 := by
  rcases h.pages l with hnone | ⟨hs, hkey⟩
  · rw [@exec_listAccounts_absent s o { l with useCache := true } h.reachable hnone,
      @exec_listAccounts_absent s o { l with useCache := false } h.reachable hnone]
    rfl
  · rw [@exec_listAccounts_kept s o { l with useCache := true } h.reachable rfl _ hkey,
      @exec_listAccounts_anew s o { l with useCache := false } h.reachable rfl _ hkey,
      exec_computedPage h.reachable hs]
    rfl

end Coherent

/-! ## Runs -/

theorem Coherent.serveAll (h : Coherent s o) (requests : List AccountRequest) :
    Coherent s (serveAll s requests o).2 := by
  induction requests generalizing o with
  | nil => exact h
  | cons r rest ih => exact ih (h.serve r)

variable {admin : String} {q : Search} {f : Freshness}

theorem Holds.serveAll (h : Holds s admin q o f) (hco : Coherent s o) (hadmin : ':' ∉ admin.toList)
    (hname : Matchable q.username) {requests : List AccountRequest}
    (hplain : ∀ r ∈ requests, r.HasPlainAdmin) : Holds s admin q (serveAll s requests o).2
      ((serveAll s requests o).1.foldl (Freshness.after admin q) f) := by
  induction requests generalizing o f with
  | nil => exact h
  | cons r rest ih =>
    have hstep := h.serve r hadmin (hplain r (.head _)) hname hco.reachable hco.lawful
    exact ih hstep (hco.serve r) (fun r' hr' => hplain r' (.tail r hr'))

/-- An answer from the cache is the answer computed anew unless it is out of date. -/
theorem Holds.answer_eq_iff (h : Holds s admin q o f) (hc : o.cache.reachable) :
    (exec (searchAccount s admin { q with useCache := true }) o).1 =
        (exec (searchAccount s admin { q with useCache := false }) o).1
      ↔ f ≠ .outdated := by
  have hasked : ∀ useCache, exec (searchAccount s admin { q with useCache }) o =
      exec (accountAnswer s (searchKey admin q) q.username q.onlyActive q.withRoles useCache) o :=
    fun useCache => rfl
  rw [hasked, hasked]
  cases h with
  | absent hkey =>
    rw [exec_accountAnswer_absent hc hkey, exec_accountAnswer_absent hc hkey]
    simp
  | current hs haccount hkey =>
    rw [exec_accountAnswer_kept hc hkey, exec_accountAnswer_anew hc hkey,
      exec_computed_some hc hs haccount]
    simp
  | outdated hs hroles haccount hkey hgained hlacked =>
    rw [exec_accountAnswer_kept hc hkey, exec_accountAnswer_anew hc hkey,
      exec_computed_some hc hs haccount, hroles]
    refine ⟨fun heq => ?_, fun hnot => absurd rfl hnot⟩
    have hsame := roles_of_document (Except.ok.inj heq)
    exact absurd (hsame ▸ hgained) hlacked

theorem Coherent.start {d : Database} (h : d.tables.Lawful) : Coherent s { accounts := d } :=
  ⟨rfl, h, fun _ => .inl rfl⟩

theorem Holds.start (d : Database) : Holds s admin q { accounts := d } .absent :=
  .absent rfl

/-- After any requests, pages from the cache are right. An answer from the cache about an account is
right exactly when it is not out of date, and it becomes so only where it tells roles and the account
was created again. -/
theorem cached_answer_eq_iff {d : Database} {requests : List AccountRequest}
    {log : List (AccountRequest × Bool)} (hlawful : d.tables.Lawful)
    (hrun : serveAll s requests { accounts := d } = (log, o)) :
    (∀ l : Listing, (exec (listAccounts s { l with useCache := true }) o).1 =
        (exec (listAccounts s { l with useCache := false }) o).1)
      ∧ ((∀ r ∈ requests, r.HasPlainAdmin) → ∀ (admin : String) (q : Search),
        ':' ∉ admin.toList → Matchable q.username →
        ((exec (searchAccount s admin { q with useCache := true }) o).1 =
            (exec (searchAccount s admin { q with useCache := false }) o).1
          ↔ freshness admin q log ≠ .outdated)
        ∧ (freshness admin q log = .outdated → q.withRoles = true
          ∧ ∃ creator a, (.create creator a, true) ∈ log ∧ a.person.username = q.username)) := by
  have hco : Coherent s { accounts := d } := .start hlawful
  have hend := hco.serveAll requests
  rw [hrun] at hend
  refine ⟨hend.page_eq, fun hplain admin q hadmin hname => ⟨?_, fun houtdated => ?_⟩⟩
  · have hholds := (Holds.start d : Holds s admin q _ _).serveAll hco hadmin hname hplain
    rw [hrun] at hholds
    exact hholds.answer_eq_iff hend.reachable
  · exact (Freshness.of_foldl_eq_outdated houtdated).resolve_left (by simp)

/-! ## A promotion -/

def staffed : Office :=
  { accounts := { tables := office } }

def roleQuestion : Search :=
  { username := "eve", withRoles := true }

def promotion : AccountRequest :=
  .create { id := 1, username := "root", role := .admin, password := { key := [] } }
    { person := { username := "eve" }, role := .admin, password := "pw" }

def askThenPromote : List AccountRequest :=
  [.search "root" roleQuestion, promotion]

theorem colon_notMem_root : ':' ∉ "root".toList := by decide

theorem plain_askThenPromote : ∀ r ∈ askThenPromote, r.HasPlainAdmin :=
  List.forall_mem_cons.mpr ⟨colon_notMem_root, List.forall_mem_singleton.mpr trivial⟩

theorem matchable_eve : Matchable "eve" :=
  ⟨by decide, by decide, by decide⟩

theorem askThenPromote_succeed :
    (serveAll {} askThenPromote staffed).1 = askThenPromote.map (·, true) := by
  let eve : Account :=
    { person := { username := "eve", phone := some "5551234567" }, roles := [(.user, true)] }
  let asked : Office := remember {} staffed (searchKey "root" roleQuestion) (eve.document true)
  have hsearch : (AccountRequest.search "root" roleQuestion).serve {} staffed = (true, asked) := by
    have haccount : staffed.accounts.tables.account? "eve" true = some eve := by decide
    change succeeded (accountAnswer {} (searchKey "root" roleQuestion) "eve" true true true) _ = _
    unfold succeeded
    rfl
  have hpromoted : (promotion.serve {} asked).1 := by
    obtain ⟨outcome, d, hrun, ⟨hfailed, -⟩ | ⟨-, cache, hserve, -⟩⟩ :=
      @serve_change {} asked promotion rfl _ _ _ rfl
    · have hzero : outcome.number = 0 := (congrArg (·.1.number) hrun).symm.trans (by decide)
      exact absurd hzero hfailed
    · rw [hserve]
  unfold askThenPromote
  simp only [serveAll, hsearch, hpromoted, List.map_cons, List.map_nil]

/-- What is told without the roles is right after the promotion. -/
theorem cached_answer_eq_after_promotion :
    let after := serveAll {} askThenPromote staffed
    (exec (searchAccount {} "root" { username := "eve" }) after.2).1 =
      (exec (searchAccount {} "root" { username := "eve", useCache := false }) after.2).1 := by
  intro after
  have h := (cached_answer_eq_iff (lawful_office : Tables.Lawful _) (rfl : _ = (after.1, after.2))).2
    plain_askThenPromote "root" { username := "eve" } colon_notMem_root matchable_eve
  exact h.1.mpr (fun houtdated => Bool.false_ne_true (h.2 houtdated).1)

/-- After the promotion, the answer from the cache does not tell the new role. -/
theorem stale_roles :
    let after := serveAll {} askThenPromote staffed
    (exec (searchAccount {} "root" roleQuestion) after.2).1 ≠
      (exec (searchAccount {} "root" { roleQuestion with useCache := false }) after.2).1 := by
  intro after heq
  have hco : Coherent {} staffed := .start lawful_office
  have hholds := (Holds.start _ : Holds {} "root" roleQuestion staffed _).serveAll hco
    colon_notMem_root matchable_eve plain_askThenPromote
  have houtdated : freshness "root" roleQuestion after.1 = .outdated := by
    rw [askThenPromote_succeed]
    decide
  exact (hholds.answer_eq_iff (hco.serveAll askThenPromote).reachable).mp heq houtdated

end SheetIntake.Service
