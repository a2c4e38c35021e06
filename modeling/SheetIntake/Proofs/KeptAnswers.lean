import SheetIntake.Proofs.TaskRecords
import SheetIntake.Service.AccountRoutes

/-!
# Answers about accounts in the cache

Answers are kept as texts under keys that tell the question. An answer that is kept reads back as the
document that it was, questions of different kinds have different keys, and the patterns that belong
to a username match the keys of the questions about it, unless characters of the username have a
meaning in patterns.

* `keptAccount_write`, `parsed_write` — what is kept reads back.
* `forgets_searchKey`, `forgets_listingKey` — the patterns match the keys.
-/

namespace SheetIntake.Service

open Cache (parsed suffixes globMatches globParts accountPatterns keyMatches)
open Accounts
open Value (distinct distinct_object_iff int list ofText?)

/-! ## Documents -/

theorem distinct_ofText? (x : Option String) : (ofText? x).distinct := by
  cases x with
  | none | some s => rw [ofText?, distinct]

theorem distinct_document (a : Account) (withRoles : Bool) : (a.document withRoles).distinct := by
  have hcolumns : ∀ m ∈ a.person.columns, m.2.distinct := by
    simp [Person.columns, distinct_ofText?, distinct]
  have hroles : (list (a.roles.map Account.roleDocument)).distinct := by
    rw [distinct, Value.distinctItems_iff]
    have hnames : ["rol", "is_active"].Nodup := by decide
    exact List.forall_mem_map.mpr fun r _ => distinct_object_iff.mpr ⟨hnames, by simp [distinct]⟩
  have hnames : ["username", "name", "surname", "sex", "phone", "email", "roles"].Nodup := by decide
  cases withRoles with
  | false =>
    exact distinct_object_iff.mpr ⟨hnames.sublist (List.sublist_append_left _ ["roles"]), hcolumns⟩
  | true =>
    exact distinct_object_iff.mpr ⟨hnames, List.forall_mem_append.mpr
      ⟨hcolumns, List.forall_mem_singleton.mpr hroles⟩⟩

theorem distinct_page (p : Page) (withRoles : Bool) : (p.document withRoles).distinct := by
  have hitems : Value.distinctItems (p.items.map (·.document withRoles)) := by
    rw [Value.distinctItems_iff]
    exact List.forall_mem_map.mpr fun a _ => distinct_document a withRoles
  have hnames : ["items", "total", "page", "limit", "total_pages", "has_next", "has_prev"].Nodup := by
    decide
  refine distinct_object_iff.mpr ⟨hnames, ?_⟩
  simp [distinct, hitems]

theorem parsed_write {v : Value} (hv : v.distinct) : parsed (Json.write .line v) = .ok v := by
  unfold parsed
  rw [Json.read_write .line hv]

theorem write_ne_empty (v : Value) : Json.write .line v ≠ "" := by
  obtain ⟨c, cs, hcs, -⟩ := Json.form_opens .line 0 v
  intro hempty
  have hnil : (Json.form .line 0 v).toList = [] := congrArg String.toList hempty
  rw [hnil] at hcs
  exact absurd hcs (List.cons_ne_nil c cs).symm

/-! ## Kept accounts -/

section

variable {members : List (String × Value)} {name : String}

theorem optional_ofText? {x : Option String} (h : Assoc.get? name members = some (.ofText? x)) :
    Form.optional members name Form.text? = .ok x := by
  unfold Form.optional
  rw [h]
  cases x <;> rfl

theorem optional_sex {x : Option Sex}
    (h : Assoc.get? name members = some (.ofText? (x.map Sex.letter))) :
    Form.optional members name sex? = .ok x := by
  unfold Form.optional
  rw [h]
  cases x with
  | none => rfl
  | some sex => cases sex <;> rfl

theorem personOf_columns (p : Person) (rest : List (String × Value)) :
    personOf (p.columns ++ rest) = .ok p := by
  have husername : Form.required (p.columns ++ rest) "username" Form.text? = .ok p.username := rfl
  have hname := @optional_ofText? (p.columns ++ rest) "name" p.name rfl
  have hsurname := @optional_ofText? (p.columns ++ rest) "surname" p.surname rfl
  have hsex := @optional_sex (p.columns ++ rest) "sex" p.sex rfl
  have hphone := @optional_ofText? (p.columns ++ rest) "phone" p.phone rfl
  have hemail := @optional_ofText? (p.columns ++ rest) "email" p.email rfl
  unfold personOf
  rw [husername, hname, hsurname, hsex, hphone, hemail]
  rfl

theorem keptRoles?_roles (roles : List (Role × Bool)) :
    keptRoles? (.list (roles.map Account.roleDocument)) = some roles := by
  have hrole : ∀ r : Role × Bool, keptRole? (Account.roleDocument r) = some r := by
    rintro ⟨role, active⟩
    cases role <;> rfl
  unfold keptRoles?
  dsimp only
  induction roles with
  | nil => rfl
  | cons r rest ih =>
    rw [List.map_cons, List.mapM_cons, hrole, ih]
    rfl

theorem roles_of_document {a b : Account} (h : a.document true = b.document true) :
    a.roles = b.roles := by
  have hmembers := Value.object.inj h
  have hroles := list.inj (congrArg Prod.snd (List.cons.inj
    (List.append_inj_right' hmembers rfl)).1)
  have hkept := congrArg (fun items => keptRoles? (.list items)) hroles
  rw [keptRoles?_roles, keptRoles?_roles] at hkept
  exact Option.some.inj hkept

theorem keptAccount_eq {text : String} (h : parsed text = .ok (.object members))
    (withRoles : Bool) : keptAccount text withRoles = Form.result (Form.fill
      (if withRoles then Form.required members "roles" keptRoles? else .ok [])
      (Form.fill (personOf members) (.ok Account.mk))) := by
  have hmembers : keptMembers text = .ok members := by
    unfold keptMembers
    rw [h]
    rfl
  unfold keptAccount
  rw [hmembers]
  rfl

theorem keptAccount_write (a : Account) (withRoles : Bool) :
    (keptAccount (Json.write .line (a.document withRoles)) withRoles).map
      (·.document withRoles) = .ok (a.document withRoles) := by
  have hparsed := parsed_write (distinct_document a withRoles)
  cases withRoles with
  | false =>
    have hperson := personOf_columns a.person []
    rw [List.append_nil] at hperson
    rw [keptAccount_eq hparsed, hperson]
    rfl
  | true =>
    let roles := list (a.roles.map Account.roleDocument)
    have hget : Assoc.get? "roles" (a.person.columns ++ [("roles", roles)]) = some roles := rfl
    have hroles : Form.required (a.person.columns ++ [("roles", roles)]) "roles" keptRoles? =
        .ok a.roles := by
      unfold Form.required
      rw [hget, Option.bind_some, keptRoles?_roles]
    rw [keptAccount_eq hparsed, if_pos rfl, hroles, personOf_columns]
    rfl

end

/-! ## Keys -/

section

variable {c : Char} {a b r s : List Char}

theorem append_cons_inj (ha : c ∉ a) (hb : c ∉ b) (h : a ++ c :: r = b ++ c :: s) :
    a = b ∧ r = s := by
  -- one of the two starts with the other, and what it has beyond that would start with the mark
  rcases List.append_eq_append_iff.mp h with ⟨_ | _, rfl, _⟩ | ⟨_ | _, rfl, _⟩ <;> simp_all

theorem append_cons_inj_last (ha : c ∉ a) (hb : c ∉ b) (h : r ++ c :: a = s ++ c :: b) :
    r = s ∧ a = b := by
  have hreverse : a.reverse ++ c :: r.reverse = b.reverse ++ c :: s.reverse := by
    simpa using congrArg List.reverse h
  obtain ⟨hlast, hfirst⟩ := append_cons_inj (by simpa using ha) (by simpa using hb) hreverse
  exact ⟨List.reverse_injective hfirst, List.reverse_injective hlast⟩

end

theorem colon_notMem_flagText (b : Bool) : ':' ∉ (flagText b).toList := by
  cases b <;> decide

theorem flagText_inj {a b : Bool} (h : (flagText a).toList = (flagText b).toList) : a = b := by
  revert h
  cases a <;> cases b <;> decide

theorem toList_searchKey (admin : String) (q : Search) :
    (searchKey admin q).toList = admin.toList ++ ':' :: ("user_info:".toList ++
      (q.username.toList ++ ':' :: ((flagText q.onlyActive).toList ++ ':' ::
        (flagText q.withRoles).toList))) := by
  unfold searchKey
  simp

/-- Where the names of admins have no colon, a key tells the whole question. -/
theorem searchKey_inj {admin admin' : String} {q q' : Search} (hadmin : ':' ∉ admin.toList)
    (hadmin' : ':' ∉ admin'.toList) (h : searchKey admin q = searchKey admin' q') :
    q.username = q'.username ∧ q.onlyActive = q'.onlyActive ∧ q.withRoles = q'.withRoles := by
  have hkeys := congrArg String.toList h
  rw [toList_searchKey, toList_searchKey] at hkeys
  have hrest := List.append_cancel_left (append_cons_inj hadmin hadmin' hkeys).2
  rw [← List.cons_append, ← List.append_assoc, ← List.cons_append, ← List.append_assoc] at hrest
  obtain ⟨hquestion, hroles⟩ := append_cons_inj_last (colon_notMem_flagText _)
    (colon_notMem_flagText _) hrest
  obtain ⟨hname, hactive⟩ := append_cons_inj_last (colon_notMem_flagText _)
    (colon_notMem_flagText _) hquestion
  exact ⟨String.toList_inj.mp hname, flagText_inj hactive, flagText_inj hroles⟩

/-! ### Keys of lists -/

theorem toString_int_inj {m n : Int} (h : (toString m).toList = (toString n).toList) : m = n := by
  -- A number is read from its text.
  have hread (k : Int) : Json.read (toString k) = .ok (.int k) := by
    have hwritten := @Json.read_write .line (.int k) (by rw [distinct])
    rwa [Json.write, Json.form] at hwritten
  have hsame := hread m
  rw [String.toList_inj.mp h, hread n] at hsame
  exact (int.inj (Except.ok.inj hsame)).symm

theorem colon_notMem_toString (n : Int) : ':' ∉ (toString n).toList := by
  intro h
  rcases Json.isDigit_or_dash_of_mem_toString h with h | h <;> cases h

theorem getLast?_toString (n : Int) : ∃ c, (toString n).toList.getLast? = some c ∧ c.isDigit := by
  have hne : Nat.toDigits 10 n.natAbs ≠ [] := Nat.toDigits_ne_nil
  refine ⟨(Nat.toDigits 10 n.natAbs).getLast hne, ?_, Json.isDigit_toDigits _ (List.getLast_mem hne)⟩
  rw [Json.toList_toString_int, ← List.getLast?_eq_some_getLast hne]
  unfold Json.signed
  split
  · rw [List.getLast?_cons, List.getLast?_eq_some_getLast hne]
    rfl
  · rfl

theorem toList_listingKey (q : Listing) :
    (listingKey q).toList = "all_users:active=".toList ++ ((flagText q.onlyActive).toList ++ ':' ::
      ("rol=".toList ++ ((flagText q.withRoles).toList ++ ':' :: ("limit=".toList ++
        ((toString q.limit).toList ++ ':' :: ("page=".toList ++ (toString q.page).toList)))))) := by
  unfold listingKey
  simp

theorem listingKey_inj {q q' : Listing} (h : listingKey q = listingKey q') :
    q.onlyActive = q'.onlyActive ∧ q.withRoles = q'.withRoles ∧ q.limit = q'.limit
      ∧ q.page = q'.page := by
  have hkeys := congrArg String.toList h
  rw [toList_listingKey, toList_listingKey] at hkeys
  obtain ⟨hactive, hrest⟩ := append_cons_inj (colon_notMem_flagText _) (colon_notMem_flagText _)
    (List.append_cancel_left hkeys)
  obtain ⟨hroles, hrest⟩ := append_cons_inj (colon_notMem_flagText _) (colon_notMem_flagText _)
    (List.append_cancel_left hrest)
  obtain ⟨hlimit, hrest⟩ := append_cons_inj (colon_notMem_toString _) (colon_notMem_toString _)
    (List.append_cancel_left hrest)
  exact ⟨flagText_inj hactive, flagText_inj hroles, toString_int_inj hlimit,
    toString_int_inj (List.append_cancel_left hrest)⟩

/-! ### Keys of different kinds -/

theorem getLast?_flagText (b : Bool) : (flagText b).toList.getLast? = some 'e' := by
  cases b <;> decide

theorem getLast?_searchKey (admin : String) (q : Search) :
    (searchKey admin q).toList.getLast? = some 'e' := by
  rw [toList_searchKey]
  simp [List.getLast?_append, List.getLast?_cons, getLast?_flagText]

theorem getLast?_myInfoKey (username : String) :
    (myInfoKey username).toList.getLast? = some 'o' := by
  unfold myInfoKey
  rw [String.toList_append, List.getLast?_append]
  rfl

theorem getLast?_listingKey (q : Listing) :
    ∃ c, (listingKey q).toList.getLast? = some c ∧ c.isDigit := by
  obtain ⟨c, hlast, hdigit⟩ := getLast?_toString q.page
  refine ⟨c, ?_, hdigit⟩
  rw [toList_listingKey]
  generalize (toString q.page).toList = ds at hlast ⊢
  simp [List.getLast?_append, List.getLast?_cons, hlast]

theorem searchKey_ne_myInfoKey (admin : String) (q : Search) (username : String) :
    searchKey admin q ≠ myInfoKey username := by
  intro h
  have hlast := getLast?_searchKey admin q
  rw [h, getLast?_myInfoKey] at hlast
  cases hlast

theorem searchKey_ne_listingKey (admin : String) (q : Search) (l : Listing) :
    searchKey admin q ≠ listingKey l := by
  intro h
  obtain ⟨c, hlast, hdigit⟩ := getLast?_listingKey l
  rw [← h, getLast?_searchKey] at hlast
  cases hlast
  cases hdigit

theorem myInfoKey_ne_listingKey (username : String) (l : Listing) :
    myInfoKey username ≠ listingKey l := by
  intro h
  obtain ⟨c, hlast, hdigit⟩ := getLast?_listingKey l
  rw [← h, getLast?_myInfoKey] at hlast
  cases hlast
  cases hdigit

/-! ## Patterns -/

/-- Characters that stand for themselves in a pattern, or for more. -/
def Literal (cs : List Char) : Prop :=
  '[' ∉ cs ∧ '\\' ∉ cs

section

variable {fuel : Nat} {pattern text : List Char}

theorem mem_suffixes (before text : List Char) : text ∈ suffixes (before ++ text) := by
  induction before with
  | nil => cases text <;> simp [suffixes]
  | cons c before ih =>
    exact .tail _ ih

theorem matches_star (before : List Char) (h : globMatches (globParts fuel pattern) text) :
    globMatches (globParts (fuel + 1) ('*' :: pattern)) (before ++ text) := by
  exact List.any_eq_true.mpr ⟨text, mem_suffixes before text, h⟩

theorem matches_char {c : Char} (hbracket : c ≠ '[') (hescape : c ≠ '\\')
    (h : globMatches (globParts fuel pattern) text) :
    globMatches (globParts (fuel + 1) (c :: pattern)) (c :: text) := by
  by_cases hstar : c = '*'
  · subst hstar
    exact matches_star ['*'] h
  by_cases hany : c = '?'
  · subst hany
    rw [globParts, globMatches]
    · exact h
    · simp
  · have hparts : globParts (fuel + 1) (c :: pattern) =
        .literal c :: globParts fuel pattern := by
      rw [globParts] <;> simp [hstar, hany, hbracket, hescape]
    rw [hparts, globMatches, h]
    · simp [Cache.GlobPart.accepts]
    · simp

theorem matches_literal {cs : List Char} (hcs : Literal cs)
    (h : globMatches (globParts fuel pattern) text) :
    globMatches (globParts (cs.length + fuel) (cs ++ pattern)) (cs ++ text) := by
  induction cs with
  | nil => simpa using h
  | cons c cs ih =>
    have hbracket : c ≠ '[' := fun heq => hcs.1 (heq ▸ List.mem_cons_self)
    have hescape : c ≠ '\\' := fun heq => hcs.2 (heq ▸ List.mem_cons_self)
    have hrest := ih ⟨List.not_mem_of_not_mem_cons hcs.1, List.not_mem_of_not_mem_cons hcs.2⟩
    rw [List.length_cons, Nat.add_right_comm]
    exact matches_char hbracket hescape hrest

theorem matches_anything (text : List Char) : globMatches (globParts 1 ['*']) text := by
  have hend := @matches_star 0 [] [] text rfl
  rwa [List.append_nil] at hend

end

/-- Changes of a username forget what is kept about it. -/
theorem forgets_searchKey {q : Search} (hname : q.username ≠ "") (hliteral : Literal q.username.toList)
    (admin : String) :
    (accountPatterns q.username true).any (keyMatches · (searchKey admin q)) := by
  refine List.any_eq_true.mpr ⟨"*:user_info:" ++ q.username ++ ":*", ?_, ?_⟩
  · unfold accountPatterns
    rw [if_neg hname]
    simp
  · let middle := ":user_info:".toList ++ q.username.toList ++ [':']
    have hmiddle : Literal middle := by
      constructor
      · simp [middle, hliteral.1]
      · simp [middle, hliteral.2]
    have hpattern : ("*:user_info:" ++ q.username ++ ":*").toList = '*' :: (middle ++ ['*']) := by
      simp [middle]
    have hkey : (searchKey admin q).toList = admin.toList ++ (middle ++
        ((flagText q.onlyActive).toList ++ ':' :: (flagText q.withRoles).toList)) := by
      rw [toList_searchKey]
      simp [middle]
    unfold keyMatches
    rw [← String.length_toList, hpattern, hkey, List.length_cons, List.length_append]
    exact matches_star _ (matches_literal hmiddle (matches_anything _))

theorem forgets_listingKey (username : String) (q : Listing) :
    (accountPatterns username true).any (keyMatches · (listingKey q)) := by
  refine List.any_eq_true.mpr ⟨"all_users:*", ?_, ?_⟩
  · unfold accountPatterns
    simp
  · have hstart : Literal "all_users:".toList := ⟨by decide, by decide⟩
    have hkey : ∃ rest, (listingKey q).toList = "all_users:".toList ++ rest := by
      rw [toList_listingKey]
      simp
    obtain ⟨rest, hkey⟩ := hkey
    unfold keyMatches
    rw [hkey]
    exact matches_literal hstart (matches_anything rest)

end SheetIntake.Service
