import SheetIntake.Proofs.AccountTables
import Mathlib.Data.Finset.Card
import Mathlib.Order.Bounds.Basic

/-!
# Pages of the list of accounts

A list of accounts is cut into pages of rows, one row for each role, and the rows of one page are put
together to accounts. So the pages together tell every role once. But an account whose rows come to
lie on two pages is torn apart, what is counted are roles and not accounts, and a page after the last
one tells neither the number nor that there are pages before it.

* `perm_grouped`, `rolesIn_grouped` — accounts from rows: nothing gets lost or is told twice.
* `pages_tell_each_role_once` — all pages together.
* `listedWhole_iff_one_page` — when an account is on one page, and what a page tells of the others.
-/

namespace SheetIntake.Accounts

def RoleEntry.listed (e : RoleEntry) : String × Role × Bool :=
  (e.username, e.role, e.active)

def Account.listed (a : Account) : List (String × Role × Bool) :=
  a.roles.map (fun r => (a.person.username, r))

def Page.listed (p : Page) : List (String × Role × Bool) :=
  p.items.flatMap Account.listed

namespace Tables

variable {t : Tables} {onlyActive : Bool}

/-! ## Roles that match -/

/-- The roles that count and belong to a person. -/
def matching (t : Tables) (onlyActive : Bool) : List RoleEntry :=
  t.roles.filter (fun e => counts onlyActive e && (t.person? e.username).isSome)

theorem username_of_mem_joined {r : Person × RoleEntry} (hr : r ∈ t.joined onlyActive) :
    r.1.username = r.2.username := by
  obtain ⟨e, -, he⟩ := List.mem_filterMap.mp hr
  obtain ⟨p, hp, rfl⟩ := Option.map_eq_some_iff.mp he
  exact username_of_person? hp

variable (t onlyActive)

theorem map_snd_joined : (t.joined onlyActive).map Prod.snd = t.matching onlyActive := by
  unfold joined matching
  induction t.roles with
  | nil => rfl
  | cons e es ih =>
    cases hcounts : counts onlyActive e with
    | false => simpa [hcounts] using ih
    | true => cases hperson : t.person? e.username <;> simpa [hcounts, hperson] using ih

theorem length_joined : (t.joined onlyActive).length = (t.matching onlyActive).length := by
  rw [← map_snd_joined, List.length_map]

/-! ## Accounts from rows -/

def rowListed (r : Person × RoleEntry) : String × Role × Bool :=
  (r.1.username, r.2.role, r.2.active)

theorem map_rowListed_joined :
    (t.joined onlyActive).map rowListed = (t.matching onlyActive).map RoleEntry.listed := by
  rw [← map_snd_joined, List.map_map]
  refine List.map_congr_left (fun r hr => ?_)
  rw [rowListed, username_of_mem_joined hr]
  rfl

theorem perm_addRole (p : Person) (r : Role × Bool) (accounts : List Account) :
    ((addRole p r accounts).flatMap Account.listed).Perm
      ((p.username, r) :: accounts.flatMap Account.listed) := by
  induction accounts with
  | nil => exact .refl _
  | cons a rest ih =>
    rw [addRole]
    split_ifs with hname
    · simp only [List.flatMap_cons, Account.listed, List.map_append, List.map_cons, List.map_nil,
        List.append_assoc, List.cons_append, List.nil_append, hname]
      exact List.perm_middle
    · exact (ih.append_left _).trans List.perm_middle

theorem perm_foldl_addRole (rows : List (Person × RoleEntry)) (accounts : List Account) :
    ((rows.foldl (fun accounts r => addRole r.1 (r.2.role, r.2.active) accounts)
        accounts).flatMap Account.listed).Perm
      (rows.map rowListed ++ accounts.flatMap Account.listed) := by
  induction rows generalizing accounts with
  | nil => exact .refl _
  | cons r rows ih =>
    have hadd := (perm_addRole r.1 (r.2.role, r.2.active) accounts).append_left (rows.map rowListed)
    exact (ih _).trans (hadd.trans List.perm_middle)

theorem perm_grouped (rows : List (Person × RoleEntry)) :
    ((grouped rows).flatMap Account.listed).Perm (rows.map rowListed) := by
  simpa [grouped] using perm_foldl_addRole rows []

end Tables

def rolesIn (accounts : List Account) (u : String) : List (List (Role × Bool)) :=
  (accounts.filter (fun a => a.person.username = u)).map Account.roles

/-- The roles of each account with a username on a page. -/
def Page.rolesOf (p : Page) (u : String) : List (List (Role × Bool)) :=
  rolesIn p.items u

/-- One account with some roles, or none where there are no roles. -/
def single (roles : List (Role × Bool)) : List (List (Role × Bool)) :=
  if roles = [] then [] else [roles]

theorem single_ne_nil {roles : List (Role × Bool)} : single roles ≠ [] ↔ roles ≠ [] := by
  unfold single
  split_ifs with h <;> simp [h]

theorem single_append (roles : List (Role × Bool)) (r : Role × Bool) :
    single (roles ++ [r]) = [roles ++ [r]] :=
  if_neg (List.append_ne_nil_of_right_ne_nil _ (List.cons_ne_nil _ _))

namespace Tables

def rolesFor (rows : List (Person × RoleEntry)) (u : String) : List (Role × Bool) :=
  (rows.filter (fun r => r.1.username = u)).map (fun r => (r.2.role, r.2.active))

theorem rolesFor_ne_nil {rows : List (Person × RoleEntry)} {u : String} :
    rolesFor rows u ≠ [] ↔ ∃ r ∈ rows, r.1.username = u := by
  simp [rolesFor, List.filter_eq_nil_iff]

theorem rolesFor_append (rows rest : List (Person × RoleEntry)) (u : String) :
    rolesFor (rows ++ rest) u = rolesFor rows u ++ rolesFor rest u := by
  simp [rolesFor]

theorem rolesIn_addRole_of_ne {p : Person} {u : String} (h : p.username ≠ u) (r : Role × Bool)
    (accounts : List Account) : rolesIn (addRole p r accounts) u = rolesIn accounts u := by
  induction accounts with
  | nil => simp [addRole, rolesIn, h]
  | cons a rest ih =>
    rw [addRole]
    split_ifs with hname
    · simp [rolesIn, hname, h]
    · by_cases hu : a.person.username = u <;> simpa [rolesIn, hu] using ih

theorem rolesIn_addRole_self {p : Person} {roles : List (Role × Bool)} {accounts : List Account}
    (h : rolesIn accounts p.username = single roles) (r : Role × Bool) :
    rolesIn (addRole p r accounts) p.username = single (roles ++ [r]) := by
  rw [single_append]
  induction accounts with
  | nil =>
    obtain rfl : roles = [] := not_not.mp (single_ne_nil.mpr · h.symm)
    simp [addRole, rolesIn]
  | cons a rest ih =>
    by_cases hname : a.person.username = p.username
    · have hroles : a.roles :: rolesIn rest p.username = single roles := by
        simpa [rolesIn, hname] using h
      have hne : roles ≠ [] := single_ne_nil.mp (hroles ▸ List.cons_ne_nil _ _)
      obtain ⟨hhead, htail⟩ := List.cons.inj (hroles.trans (if_neg hne))
      have hnone := List.map_eq_nil_iff.mp htail
      simp [addRole, rolesIn, hname, hhead, hnone]
    · rw [addRole, if_neg hname]
      have hrest : rolesIn rest p.username = single roles := by simpa [rolesIn, hname] using h
      simpa [rolesIn, hname] using ih hrest

theorem rolesIn_foldl_addRole (u : String) (rows : List (Person × RoleEntry))
    {roles : List (Role × Bool)} {accounts : List Account} (h : rolesIn accounts u = single roles) :
    rolesIn (rows.foldl (fun accounts r => addRole r.1 (r.2.role, r.2.active) accounts) accounts) u
      = single (roles ++ rolesFor rows u) := by
  induction rows generalizing roles accounts with
  | nil => simpa [rolesFor] using h
  | cons r rows ih =>
    by_cases hu : r.1.username = u
    · subst hu
      rw [List.foldl_cons, ih (rolesIn_addRole_self h _)]
      simp [rolesFor]
    · rw [List.foldl_cons, ih ((rolesIn_addRole_of_ne hu _ _).trans h)]
      simp [rolesFor, hu]

theorem rolesIn_grouped (rows : List (Person × RoleEntry)) (u : String) :
    rolesIn (grouped rows) u = single (rolesFor rows u) := by
  have hnone : rolesIn [] u = single [] := rfl
  exact rolesIn_foldl_addRole u rows hnone

theorem rolesFor_joined (t : Tables) (onlyActive : Bool) (u : String) :
    rolesFor (t.joined onlyActive) u
      = ((t.matching onlyActive).filter (·.username = u)).map
          (fun e => (e.role, e.active)) := by
  rw [← map_snd_joined, List.filter_map, List.map_map, rolesFor]
  refine congrArg (List.map _) (List.filter_congr (fun r hr => ?_))
  rw [username_of_mem_joined hr]
  rfl

/-! ## Rows on pages -/

def pageCount (rows limit : Nat) : Nat :=
  (rows + limit - 1) / limit

theorem lt_pageCount_iff {rows limit k : Nat} (hl : 0 < limit) :
    k < pageCount rows limit ↔ k * limit < rows := by
  rw [pageCount, ← Nat.succ_le_iff, Nat.le_div_iff_mul_le hl, Nat.succ_mul]
  omega

/-- The rows on a page. The first page has the number 0 here. -/
def pageRows (t : Tables) (onlyActive : Bool) (limit k : Nat) : List (Person × RoleEntry) :=
  ((t.joined onlyActive).drop (k * limit)).take limit

variable {t : Tables} {onlyActive : Bool} {limit k : Nat}

theorem flatMap_pageRows (t : Tables) (onlyActive : Bool) (limit n : Nat) :
    (List.range n).flatMap (t.pageRows onlyActive limit)
      = (t.joined onlyActive).take (n * limit) := by
  induction n with
  | zero => simp
  | succ n ih =>
    rw [List.range_succ, List.flatMap_append, ih, List.flatMap_singleton, Nat.succ_mul,
      List.take_add, pageRows]

theorem window_eq_pageRows (t : Tables) (onlyActive : Bool) (limit k : Nat) :
    window (t.joined onlyActive) limit (((k : Int) + 1 - 1) * limit)
      = t.pageRows onlyActive limit k := by
  have hoffset : (((k : Int) + 1 - 1) * limit).toNat = k * limit := by
    rw [Int.add_sub_cancel]
    exact Int.toNat_natCast (k * limit)
  rw [window, if_neg (Int.not_lt.mpr (Int.natCast_nonneg limit)), hoffset, Int.toNat_natCast,
    pageRows]

theorem exists_eq_succ {p : Int} (hp : 1 ≤ p) : ∃ k : Nat, p = k + 1 :=
  ⟨(p - 1).toNat, by omega⟩

theorem one_le_succ (k : Nat) : (1 : Int) ≤ k + 1 :=
  Int.le_add_of_nonneg_left (Int.natCast_nonneg k)

section

variable (hl : 0 < limit)

include hl

theorem pageRows_eq_nil_iff : t.pageRows onlyActive limit k = []
      ↔ pageCount (t.matching onlyActive).length limit ≤ k := by
  rw [← not_lt, lt_pageCount_iff hl, not_lt, ← length_joined, ← List.drop_eq_nil_iff, pageRows,
    List.take_eq_nil_iff, or_iff_right hl.ne']

theorem mem_pageRows_iff {r : Person × RoleEntry} :
    r ∈ t.pageRows onlyActive limit k
      ↔ ∃ i, (t.joined onlyActive)[i]? = some r ∧ i / limit = k := by
  rw [pageRows, List.mem_iff_getElem?]
  constructor
  · rintro ⟨i, hi⟩
    obtain ⟨hlt, hget⟩ : i < limit ∧ (t.joined onlyActive)[k * limit + i]? = some r := by
      simpa [List.getElem?_take] using hi
    exact ⟨_, hget, by rw [Nat.mul_comm, Nat.mul_add_div hl, Nat.div_eq_of_lt hlt, Nat.add_zero]⟩
  · rintro ⟨i, hget, rfl⟩
    refine ⟨i % limit, ?_⟩
    rw [List.getElem?_take, if_pos (Nat.mod_lt i hl), List.getElem?_drop, Nat.div_add_mod', hget]

theorem fdiv_eq_pageCount (rows : Nat) :
    Int.fdiv ((rows : Int) + limit - 1) limit = pageCount rows limit := by
  rw [Int.fdiv_eq_ediv_of_nonneg _ (Int.natCast_nonneg limit), pageCount, Int.natCast_ediv]
  congr 1
  omega

/-! ## Pages -/

theorem page_of_lt (hk : k < pageCount (t.matching onlyActive).length limit) :
    t.page onlyActive limit (k + 1) =
      { items := grouped (t.pageRows onlyActive limit k)
        total := (t.matching onlyActive).length
        page := k + 1
        limit
        totalPages := pageCount (t.matching onlyActive).length limit
        hasNext := k + 1 < pageCount (t.matching onlyActive).length limit
        hasPrevious := 0 < k } := by
  have hne : ¬ (t.pageRows onlyActive limit k).isEmpty := by
    rw [List.isEmpty_iff, pageRows_eq_nil_iff hl]
    exact not_le.mpr hk
  simp only [page, window_eq_pageRows, if_neg hne, length_joined, fdiv_eq_pageCount hl]
  congr 1 <;> exact decide_eq_decide.mpr (by omega)

theorem page_of_ge (hk : pageCount (t.matching onlyActive).length limit ≤ k) :
    t.page onlyActive limit (k + 1) =
      { items := [], total := 0, page := k + 1, limit, totalPages := 0, hasNext := false,
        hasPrevious := false } := by
  simp only [page, window_eq_pageRows, (pageRows_eq_nil_iff hl).mpr hk, List.isEmpty_nil, if_true]

theorem total_page : (t.page onlyActive limit (k + 1)).total
      = if k < pageCount (t.matching onlyActive).length limit then (t.matching onlyActive).length
        else 0 := by
  split_ifs with hk
  · rw [page_of_lt hl hk]
  · rw [page_of_ge hl (not_lt.mp hk)]

theorem hasPrevious_page : (t.page onlyActive limit (k + 1)).hasPrevious
      ↔ 0 < k ∧ k < pageCount (t.matching onlyActive).length limit := by
  by_cases hk : k < pageCount (t.matching onlyActive).length limit
  · rw [page_of_lt hl hk, decide_eq_true_eq, and_iff_left hk]
  · rw [page_of_ge hl (not_lt.mp hk)]
    simp [hk]

theorem items_page :
    (t.page onlyActive limit (k + 1)).items = grouped (t.pageRows onlyActive limit k) := by
  by_cases hk : k < pageCount (t.matching onlyActive).length limit
  · rw [page_of_lt hl hk]
  · rw [page_of_ge hl (not_lt.mp hk), (pageRows_eq_nil_iff hl).mpr (not_lt.mp hk)]
    rfl

theorem perm_listed_page : (t.page onlyActive limit (k + 1)).listed.Perm
      ((t.pageRows onlyActive limit k).map rowListed) := by
  rw [Page.listed, items_page hl]
  exact perm_grouped _

theorem listed_page_eq_nil_iff : (t.page onlyActive limit (k + 1)).listed = []
      ↔ pageCount (t.matching onlyActive).length limit ≤ k := by
  rw [← List.perm_nil, (perm_listed_page hl).congr_left, List.perm_nil, List.map_eq_nil_iff,
    pageRows_eq_nil_iff hl]

theorem le_pageCount_mul (rows : Nat) : rows ≤ pageCount rows limit * limit :=
  not_lt.mp ((lt_pageCount_iff hl).not.mp (lt_irrefl _))

theorem isLeast_pageCount (rows : Nat) :
    IsLeast {p : Int | (rows : Int) ≤ p * limit} (pageCount rows limit) := by
  constructor
  · rw [Set.mem_ofPred_eq]
    exact_mod_cast le_pageCount_mul hl rows
  · intro p hp
    rw [Set.mem_ofPred_eq] at hp
    obtain ⟨k, rfl⟩ : ∃ k : Nat, p = k := by
      refine Int.eq_ofNat_of_zero_le (Int.not_lt.mp (fun hneg => ?_))
      have hlow := Int.mul_neg_of_neg_of_pos hneg (Int.natCast_pos.mpr hl)
      omega
    have hk : ¬ k * limit < rows := not_lt.mpr (by exact_mod_cast hp)
    exact_mod_cast not_lt.mp ((lt_pageCount_iff hl).not.mpr hk)

end

theorem first_page (t : Tables) (onlyActive : Bool) (hl : 0 < limit) :
    (t.page onlyActive limit 1).total = (t.matching onlyActive).length
      ∧ (t.page onlyActive limit 1).totalPages
        = pageCount (t.matching onlyActive).length limit := by
  have hfirst : (1 : Int) = ((0 : Nat) : Int) + 1 := rfl
  rw [hfirst]
  by_cases hk : 0 < pageCount (t.matching onlyActive).length limit
  · rw [page_of_lt hl hk]
    exact ⟨rfl, rfl⟩
  · have hpages := Nat.eq_zero_of_not_pos hk
    have hnone : (t.matching onlyActive).length = 0 := by
      rw [lt_pageCount_iff hl] at hk
      omega
    rw [page_of_ge hl hpages.le, hpages, hnone]
    exact ⟨rfl, rfl⟩

theorem perm_listed_pages (t : Tables) (onlyActive : Bool) (hl : 0 < limit) {n : Nat}
    (hlast : (t.matching onlyActive).length ≤ n * limit) :
    ((List.range n).flatMap (fun k : Nat => (t.page onlyActive limit (k + 1)).listed)).Perm
      ((t.matching onlyActive).map RoleEntry.listed) := by
  have hrows : (List.range n).flatMap (t.pageRows onlyActive limit) = t.joined onlyActive := by
    rw [flatMap_pageRows, List.take_of_length_le ((length_joined t onlyActive).trans_le hlast)]
  rw [← map_rowListed_joined, ← hrows, List.map_flatMap]
  exact List.Perm.flatMap_left _ (fun k _ => perm_listed_page hl)

/-- The pages of a list tell each role that matches once. -/
theorem pages_tell_each_role_once (t : Tables) (onlyActive : Bool) {limit : Int}
    (hlimit : 1 ≤ limit) :
    (t.page onlyActive limit 1).total = (t.matching onlyActive).length
      ∧ IsLeast {p : Int | ((t.page onlyActive limit 1).total : Int) ≤ p * limit}
          (t.page onlyActive limit 1).totalPages
      ∧ (∀ p, 1 ≤ p → p ≤ (t.page onlyActive limit 1).totalPages →
          ((t.page onlyActive limit p).hasNext = true
            ↔ (t.page onlyActive limit (p + 1)).listed ≠ []))
      ∧ ((List.range (t.page onlyActive limit 1).totalPages.toNat).flatMap
            (fun k : Nat => (t.page onlyActive limit (k + 1)).listed)).Perm
          ((t.matching onlyActive).map RoleEntry.listed) := by
  obtain ⟨l, rfl⟩ := Int.eq_ofNat_of_zero_le (Int.le_trans (by decide) hlimit)
  have hl : 0 < l := by omega
  obtain ⟨htotal, hpages⟩ := first_page t onlyActive hl
  rw [htotal, hpages, Int.toNat_natCast]
  refine ⟨rfl, isLeast_pageCount hl _, ?_, perm_listed_pages t onlyActive hl (le_pageCount_mul hl _)⟩
  intro p hp hle
  obtain ⟨k, rfl⟩ := exists_eq_succ hp
  have hnext : (t.page onlyActive l ((k : Int) + 1 + 1)).listed = []
      ↔ pageCount (t.matching onlyActive).length l ≤ k + 1 :=
    listed_page_eq_nil_iff hl
  rw [page_of_lt hl (by omega), Ne, hnext, not_le, decide_eq_true_eq]

def crew : Tables :=
  { people := [{ username := "ann" }, { username := "bob" }]
    roles := [{ id := 1, username := "ann", role := .user, password := { key := [] } },
      { id := 2, username := "bob", role := .user, password := { key := [] } },
      { id := 3, username := "ann", role := .admin, password := { key := [] }, active := false },
      { id := 4, username := "bob", role := .admin, password := { key := [] } }] }

theorem crew_told_on_two_pages :
    (crew.page false 3 1).total = 4 ∧ (crew.page false 3 1).totalPages = 2
      ∧ ((crew.page false 3 1).hasNext = true ↔ (crew.page false 3 2).listed ≠ [])
      ∧ ((crew.page false 3 1).listed ++ (crew.page false 3 2).listed).Perm
          (crew.roles.map RoleEntry.listed) := by
  have h := pages_tell_each_role_once crew false (show (1 : Int) ≤ 3 by decide)
  exact ⟨h.1, by decide, h.2.2.1 1 (by decide) (by decide), h.2.2.2⟩

/-! ## Users on pages -/

theorem rolesOf_page (hl : 0 < limit) (u : String) : (t.page onlyActive limit (k + 1)).rolesOf u
      = single (rolesFor (t.pageRows onlyActive limit k) u) := by
  rw [Page.rolesOf, items_page hl, rolesIn_grouped]

theorem rolesOf_page_ne_nil_iff (hl : 0 < limit) {u : String} :
    (t.page onlyActive limit (k + 1)).rolesOf u ≠ []
      ↔ ∃ i e, (t.matching onlyActive)[i]? = some e ∧ e.username = u ∧ i / limit = k := by
  rw [rolesOf_page hl, single_ne_nil, rolesFor_ne_nil, ← map_snd_joined]
  simp only [mem_pageRows_iff hl, List.getElem?_map, Option.map_eq_some_iff]
  constructor
  · rintro ⟨r, ⟨i, hget, hpage⟩, rfl⟩
    have hname := username_of_mem_joined (List.mem_of_getElem? hget)
    exact ⟨i, r.2, ⟨r, hget, rfl⟩, hname.symm, hpage⟩
  · rintro ⟨i, e, ⟨r, hget, rfl⟩, rfl, hpage⟩
    exact ⟨r, ⟨i, hget, hpage⟩, username_of_mem_joined (List.mem_of_getElem? hget)⟩

theorem rolesFor_pageRows (hl : 0 < limit) {u : String}
    (h : ∀ i r, (t.joined onlyActive)[i]? = some r → r.1.username = u → i / limit = k) :
    rolesFor (t.pageRows onlyActive limit k) u = rolesFor (t.joined onlyActive) u := by
  -- neither the rows before the page nor those after it are about the user
  have hbefore : rolesFor ((t.joined onlyActive).take (k * limit)) u = [] := by
    refine not_not.mp (rolesFor_ne_nil.not.mpr ?_)
    rintro ⟨r, hr, hname⟩
    obtain ⟨i, hi⟩ := List.mem_iff_getElem?.mp hr
    obtain ⟨hlt, hget⟩ : i < k * limit ∧ (t.joined onlyActive)[i]? = some r := by
      simpa [List.getElem?_take] using hi
    exact absurd (h i r hget hname) (Nat.div_lt_of_lt_mul (Nat.mul_comm k limit ▸ hlt)).ne
  have hafter : rolesFor (((t.joined onlyActive).drop (k * limit)).drop limit) u = [] := by
    refine not_not.mp (rolesFor_ne_nil.not.mpr ?_)
    rintro ⟨r, hr, hname⟩
    obtain ⟨i, hi⟩ := List.mem_iff_getElem?.mp hr
    rw [List.drop_drop, List.getElem?_drop] at hi
    have hpage : k + 1 ≤ (k * limit + limit + i) / limit := by
      rw [Nat.le_div_iff_mul_le hl, Nat.succ_mul]
      exact Nat.le_add_right _ _
    have := h _ r hi hname
    omega
  conv_rhs =>
    rw [← List.take_append_drop (k * limit) (t.joined onlyActive), rolesFor_append, hbefore,
      ← List.take_append_drop limit (List.drop _ _), rolesFor_append, hafter]
  rw [List.nil_append, List.append_nil, pageRows]

/-- Whether a user is on exactly one page of a list, and there with all roles that match. -/
def ListedWhole (t : Tables) (onlyActive : Bool) (limit : Int) (u : String) : Prop :=
  ∃ p, 1 ≤ p
    ∧ (∀ q, 1 ≤ q → ((t.page onlyActive limit q).rolesOf u ≠ [] ↔ q = p))
    ∧ (t.page onlyActive limit p).rolesOf u
      = [((t.matching onlyActive).filter (fun e => e.username = u)).map
          (fun e => (e.role, e.active))]

def userCount (t : Tables) (onlyActive : Bool) : Nat :=
  ((t.matching onlyActive).map RoleEntry.username).toFinset.card

theorem listedWhole_iff (hl : 0 < limit) {u : String}
    (hu : u ∈ (t.matching onlyActive).map RoleEntry.username) : t.ListedWhole onlyActive limit u
      ↔ ∀ i j e f, (t.matching onlyActive)[i]? = some e → (t.matching onlyActive)[j]? = some f →
          e.username = u → f.username = u → i / limit = j / limit := by
  constructor
  · rintro ⟨p, -, honly, -⟩ i j e f he hf heu hfu
    have hi : ((i / limit : Nat) : Int) + 1 = p :=
      (honly _ (one_le_succ _)).mp ((rolesOf_page_ne_nil_iff hl).mpr ⟨i, e, he, heu, rfl⟩)
    have hj : ((j / limit : Nat) : Int) + 1 = p :=
      (honly _ (one_le_succ _)).mp ((rolesOf_page_ne_nil_iff hl).mpr ⟨j, f, hf, hfu, rfl⟩)
    omega
  · intro hone
    obtain ⟨e, hmem, hname⟩ := List.mem_map.mp hu
    obtain ⟨i, he⟩ := List.mem_iff_getElem?.mp hmem
    refine ⟨((i / limit : Nat) : Int) + 1, one_le_succ _, ?_, ?_⟩
    · intro q hq
      obtain ⟨k, rfl⟩ := exists_eq_succ hq
      rw [rolesOf_page_ne_nil_iff hl]
      constructor
      · rintro ⟨j, f, hf, hfu, rfl⟩
        rw [hone i j e f he hf hname hfu]
      · intro hk
        exact ⟨i, e, he, hname, by omega⟩
    · have hrows : ∀ j r, (t.joined onlyActive)[j]? = some r → r.1.username = u →
          j / limit = i / limit := by
        intro j r hget hr
        have hf : (t.matching onlyActive)[j]? = some r.2 := by
          rw [← map_snd_joined, List.getElem?_map, hget]
          rfl
        have hru := (username_of_mem_joined (List.mem_of_getElem? hget)).symm.trans hr
        exact hone j i r.2 e hf he hru hname
      rw [rolesOf_page hl, rolesFor_pageRows hl hrows, rolesFor_joined]
      refine if_neg (fun hnil => ?_)
      rw [List.map_eq_nil_iff, List.filter_eq_nil_iff] at hnil
      exact hnil e hmem (decide_eq_true hname)

theorem length_matching_eq_userCount_iff : (t.matching onlyActive).length = t.userCount onlyActive
      ↔ ((t.matching onlyActive).map RoleEntry.username).Nodup := by
  have hcard := Multiset.toFinset_card_eq_card_iff_nodup
    (m := (((t.matching onlyActive).map RoleEntry.username : List String) : Multiset String))
  rw [Multiset.coe_card, List.length_map, Multiset.coe_nodup] at hcard
  rw [← hcard, eq_comm]
  rfl

theorem userCount_eq_zero_iff : t.userCount onlyActive = 0 ↔ t.matching onlyActive = [] := by
  rw [userCount, Finset.card_eq_zero, List.toFinset_eq_empty_iff, List.map_eq_nil_iff]

/-- A user is on one page, with all roles, exactly if no page ends between the rows of two of these
roles. The number that a page tells is that of the roles, and zero after the last page, where also
the pages before it are not told. -/
theorem listedWhole_iff_one_page (t : Tables) (onlyActive : Bool) {limit : Int}
    (hlimit : 1 ≤ limit) :
    (∀ u ∈ (t.matching onlyActive).map RoleEntry.username,
        t.ListedWhole onlyActive limit u
          ↔ ∀ i j e f, (t.matching onlyActive)[i]? = some e →
              (t.matching onlyActive)[j]? = some f → e.username = u → f.username = u →
              i / limit.toNat = j / limit.toNat)
      ∧ (∀ p, 1 ≤ p →
          (t.page onlyActive limit p).total
            = if p ≤ (t.page onlyActive limit 1).totalPages then (t.matching onlyActive).length
              else 0)
      ∧ (∀ p, 1 ≤ p →
          ((t.page onlyActive limit p).total = t.userCount onlyActive
            ↔ if p ≤ (t.page onlyActive limit 1).totalPages
              then ((t.matching onlyActive).map RoleEntry.username).Nodup
              else t.matching onlyActive = []))
      ∧ (∀ p, 1 ≤ p →
          (((t.page onlyActive limit p).hasPrevious = true ↔ 1 < p)
            ↔ p = 1 ∨ p ≤ (t.page onlyActive limit 1).totalPages)) := by
  obtain ⟨l, rfl⟩ := Int.eq_ofNat_of_zero_le (Int.le_trans (by decide) hlimit)
  have hl : 0 < l := by omega
  obtain ⟨-, hpages⟩ := first_page t onlyActive hl
  rw [hpages, Int.toNat_natCast]
  refine ⟨fun u hu => listedWhole_iff hl hu, ?_⟩
  have hlt : ∀ k : Nat, (k : Int) + 1 ≤ pageCount (t.matching onlyActive).length l
      ↔ k < pageCount (t.matching onlyActive).length l := by omega
  refine ⟨?_, ?_, ?_⟩
  · intro p hp
    obtain ⟨k, rfl⟩ := exists_eq_succ hp
    simp only [hlt, total_page hl]
  · intro p hp
    obtain ⟨k, rfl⟩ := exists_eq_succ hp
    simp only [hlt, total_page hl]
    split_ifs
    · exact length_matching_eq_userCount_iff
    · exact eq_comm.trans userCount_eq_zero_iff
  · intro p hp
    obtain ⟨k, rfl⟩ := exists_eq_succ hp
    rw [hlt, hasPrevious_page hl]
    omega

theorem crew_listed_whole :
    crew.ListedWhole false 4 "ann" ∧ (crew.page false 4 1).total ≠ crew.userCount false
      ∧ (crew.page false 4 2).total = 0 ∧ (crew.page false 4 2).hasPrevious = false := by
  have h := listedWhole_iff_one_page crew false (show (1 : Int) ≤ 4 by decide)
  have hlength : (crew.matching false).length = 4 := by decide
  refine ⟨(h.1 "ann" (by decide)).mpr ?_, ?_, h.2.1 2 (by decide), by decide⟩
  · intro i j e f he hf _ _
    have hi : i < 4 := hlength ▸ (List.getElem?_eq_some_iff.mp he).1
    have hj : j < 4 := hlength ▸ (List.getElem?_eq_some_iff.mp hf).1
    exact (Nat.div_eq_of_lt hi).trans (Nat.div_eq_of_lt hj).symm
  · exact fun htotal => absurd ((h.2.2.1 1 (by decide)).mp htotal) (by decide)

def twoRoles : Tables :=
  { people := [{ username := "bob" }]
    roles := [{ id := 1, username := "bob", role := .user, password := { key := [] } },
      { id := 2, username := "bob", role := .admin, password := { key := [] } }] }

/-- A user is torn apart, two users are counted, and no page seems to be before the third. -/
theorem user_on_two_pages :
    twoRoles.userCount true = 1 ∧ ¬ twoRoles.ListedWhole true 1 "bob"
      ∧ (twoRoles.page true 1 1).total = 2
      ∧ (twoRoles.page true 1 3).total = 0 ∧ (twoRoles.page true 1 3).hasPrevious = false := by
  refine ⟨by decide, ?_, by decide⟩
  rintro ⟨p, -, honly, -⟩
  have hfirst : 1 = p := (honly 1 (by decide)).mp (by decide)
  have hsecond : 2 = p := (honly 2 (by decide)).mp (by decide)
  omega

end Tables

end SheetIntake.Accounts
