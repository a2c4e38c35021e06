import SheetIntake.Proofs.KeywordReach

/-!
# Schemas that a search gets through

Two kinds of schemas are known to need no more than a certain depth. A schema without references
needs as much as it is nested, and what is found does not depend on where it stands. The latest
metaschema refers to itself, but on every way back to itself it goes down into the value.
-/

namespace SheetIntake.Schema

open Related (namers)

/-! ## Schemas inside schemas -/

/-- The keywords whose value is a schema or a list of schemas. -/
def appliers : List String :=
  ["additionalItems", "additionalProperties", "allOf", "anyOf", "contains", "else", "if", "items",
    "not", "oneOf", "prefixItems", "propertyNames", "then"]

/-- The keywords that apply schemas to parts of the value. -/
def insiders : List String :=
  ["additionalItems", "additionalProperties", "contains", "items", "patternProperties",
    "prefixItems", "properties", "propertyNames"]

/-- A schema that a keyword holds. -/
inductive Holds (name : String) (v : Value) : Value → Prop where
  | named {schema : Value} (hname : name ∈ Related.namers)
      (hmem : schema ∈ (membersOf v).map Prod.snd) : Holds name v schema
  | whole (hname : name ∈ appliers) : Holds name v v
  | listed {schema : Value} (hname : name ∈ appliers) (hmem : schema ∈ itemsOf v) :
    Holds name v schema

variable {members : List (String × Value)} {name : String} {v schema : Value} {k : Nat}
  {σ σ' scope : Scope}

theorem not_namer (h : name ∈ appliers) : name ∉ namers := by
  revert name
  decide

theorem holds_of_mem_inside (h : schema ∈ inside name v) :
    name ∈ insiders ∧ Holds name v schema := by
  unfold inside at h
  split_ifs at h with hone hitems hprefix hnamed
  · obtain rfl := List.mem_singleton.mp h
    have hname : ∀ name ∈ ["additionalItems", "additionalProperties", "contains", "propertyNames"],
        name ∈ insiders ∧ name ∈ appliers := by decide
    exact ⟨(hname name hone).1, .whole (hname name hone).2⟩
  · subst hitems
    rcases List.mem_cons.mp h with rfl | h
    · exact ⟨by decide, .whole (by decide)⟩
    · exact ⟨by decide, .listed (by decide) h⟩
  · subst hprefix
    exact ⟨by decide, .listed (by decide) h⟩
  · have hname : ∀ name ∈ ["properties", "patternProperties"],
        name ∈ insiders ∧ name ∈ namers := by decide
    exact ⟨(hname name hnamed).1, .named (hname name hnamed).2 h⟩
  · cases h

theorem holds_of_mem_inPlace (hv : (name, v) ∈ members) (h : schema ∈ inPlace members name v) :
    ∃ name' v', (name', v') ∈ members ∧ name' ∉ insiders ∧ Holds name' v' schema := by
  unfold inPlace at h
  split_ifs at h with hnot hif hlist hnamed
  · subst hnot
    obtain rfl := List.mem_singleton.mp h
    exact ⟨_, _, hv, by decide, .whole (by decide)⟩
  · subst hif
    rcases List.mem_append.mp h with h | h
    · rcases List.mem_cons.mp h with rfl | h
      · exact ⟨_, _, hv, by decide, .whole (by decide)⟩
      · have hthen := Assoc.mem_of_get? (Option.mem_toList.mp h)
        exact ⟨_, _, hthen, by decide, .whole (by decide)⟩
    · have helse := Assoc.mem_of_get? (Option.mem_toList.mp h)
      exact ⟨_, _, helse, by decide, .whole (by decide)⟩
  · have hname : ∀ name ∈ ["allOf", "anyOf", "oneOf"], name ∉ insiders ∧ name ∈ appliers := by
      decide
    exact ⟨_, _, hv, (hname name hlist).1, .listed (hname name hlist).2 h⟩
  · have hname : ∀ name ∈ ["dependencies", "dependentRequired", "dependentSchemas"],
        name ∉ insiders ∧ name ∈ namers := by decide
    exact ⟨_, _, hv, (hname name hnamed).1, .named (hname name hnamed).2 h⟩
  · cases h

/-- What holds of the values of a keyword, and passes from lists to items, holds of its schemas. -/
@[elab_as_elim]
theorem Holds.elim {motive : Value → Prop} (h : Holds name v schema)
    (hnamed : name ∈ namers → ∀ members, v = .object members → ∀ m ∈ members, motive m.2)
    (hwhole : name ∈ appliers → motive v)
    (hitems : ∀ items, motive (.list items) → ∀ x ∈ items, motive x) : motive schema := by
  cases h with
  | named hname hmem =>
    cases v with
    | object members =>
      obtain ⟨m, hm, rfl⟩ := List.mem_map.mp hmem
      exact hnamed hname members rfl m hm
    | _ => cases hmem
  | whole hname => exact hwhole hname
  | listed hname hmem =>
    cases v with
    | list items => exact hitems items (hwhole hname) schema hmem
    | _ => cases hmem

theorem Holds.nesting_le (h : Holds name v schema) : schema.nesting ≤ v.nesting := by
  refine h.elim ?_ (fun _ => Nat.le_refl _) ?_
  · rintro - members rfl m hm
    exact (Value.nesting_member_lt hm).le
  · intro items hle x hx
    exact (Value.nesting_item_lt hx).le.trans hle

/-! ## Schemas without references -/

mutual

/-- Whether a schema has no references, in all schemas inside it. -/
def selfContained : Value → Bool
  | .object members => selfContainedMembers members
  | .list items => selfContainedItems items
  | _ => true

def selfContainedItems : List Value → Bool
  | [] => true
  | v :: rest => selfContained v && selfContainedItems rest

def selfContainedMembers : List (String × Value) → Bool
  | [] => true
  | (name, v) :: rest =>
    name ∉ referrers &&
      (if name ∈ Related.namers then selfContainedNamed v
        else name ∉ appliers || selfContained v) &&
      selfContainedMembers rest

def selfContainedNamed : Value → Bool
  | .object members => selfContainedValues members
  | _ => true

def selfContainedValues : List (String × Value) → Bool
  | [] => true
  | (_, v) :: rest => selfContained v && selfContainedValues rest

end

theorem selfContainedItems_iff {items : List Value} :
    selfContainedItems items ↔ ∀ v ∈ items, selfContained v := by
  induction items with
  | nil => simp [selfContainedItems]
  | cons v rest ih => rw [selfContainedItems, Bool.and_eq_true, List.forall_mem_cons, ih]

theorem selfContainedValues_iff :
    selfContainedValues members ↔ ∀ m ∈ members, selfContained m.2 := by
  induction members with
  | nil => simp [selfContainedValues]
  | cons m rest ih => rw [selfContainedValues, Bool.and_eq_true, List.forall_mem_cons, ih]

theorem selfContainedMembers_iff : selfContainedMembers members ↔ ∀ m ∈ members, m.1 ∉ referrers
      ∧ (if m.1 ∈ namers then selfContainedNamed m.2
        else m.1 ∉ appliers || selfContained m.2) := by
  induction members with
  | nil => simp [selfContainedMembers]
  | cons m rest ih =>
    rw [selfContainedMembers, Bool.and_eq_true, Bool.and_eq_true, List.forall_mem_cons, ih,
      decide_eq_true_eq]

theorem Holds.selfContained (h : Holds name v schema)
    (hmembers : selfContainedMembers members) (hv : (name, v) ∈ members) :
    Schema.selfContained schema := by
  have hinside := (selfContainedMembers_iff.mp hmembers (name, v) hv).2
  refine h.elim (fun hname inner hobject => ?_) (fun hname => ?_) (fun items hlist => ?_)
  · rw [if_pos hname, hobject] at hinside
    exact selfContainedValues_iff.mp hinside
  · rw [if_neg (not_namer hname)] at hinside
    simpa [hname] using hinside
  · exact selfContainedItems_iff.mp hlist

/-- A schema without references in two scopes of the same draft, with depth for its nesting. -/
structure Standing (k : Nat) (σ σ' : Scope) (a : Value) : Prop where
  selfContained : selfContained a = true
  nesting : a.nesting < k
  draft : Draft.ofSchema σ.draft a = Draft.ofSchema σ'.draft a

theorem Standing.held (h : Standing (k + 1) σ σ' (.object members)) (hv : (name, v) ∈ members)
    (hholds : Holds name v schema) :
    Standing k (σ.within (.object members)) (σ'.within (.object members)) schema where
  selfContained := hholds.selfContained (by simpa [Schema.selfContained] using h.selfContained) hv
  nesting := by
    have hmember : v.nesting < (Value.object members).nesting := Value.nesting_member_lt hv
    have hnesting := h.nesting
    have hheld := hholds.nesting_le
    omega
  draft := by rw [draft_within, draft_within, h.draft]

theorem settling_standing : Settling 0 Standing where
  pos h := Nat.zero_lt_of_lt h.nesting
  draft h := h.draft
  inPlace h hv hschema := by
    obtain ⟨name', v', hv', -, hholds⟩ := holds_of_mem_inPlace hv hschema
    exact h.held hv' hholds
  inside h hv hschema := h.held hv (holds_of_mem_inside hschema).2
  reference h hv hname := by
    have hmembers := h.selfContained
    rw [Schema.selfContained, selfContainedMembers_iff] at hmembers
    exact absurd hname (hmembers _ hv).1

/-- A schema without references finds the same wherever it stands. -/
theorem findings_selfContained {a : Value} (ha : selfContained a) (formats : Bool)
    (hdraft : Draft.ofSchema σ.draft a = Draft.ofSchema σ'.draft a) {n m : Nat}
    (hn : a.nesting < n) (hm : a.nesting < m) (x : Value) :
    findings formats m σ' a x = findings formats n σ a x :=
  findings_eq_of_settling settling_standing formats ⟨ha, Nat.lt_succ_self _, hdraft⟩
    (by omega) (by omega)

/-! ## The latest metaschema -/

/-- How much deeper the latest metaschema may go for each level of the value. -/
def stride : Nat :=
  4

/-- How much depth a place inside the latest metaschema needs before the value is left: the
metaschema refers to its parts, and some definitions refer to others. -/
def rank (schema : Value) : Nat :=
  if (schema.get? "allOf").isSome then 3
  else if (schema.get? "$ref").isSome then 2
  else 1

theorem rank_le (schema : Value) : rank schema ≤ 3 := by
  unfold rank
  split_ifs <;> omega

/-- Whether a reference leads to a place with no more than a rank. -/
def leadsBelow (scope : Scope) (k : Nat) : Value → Bool
  | .str address =>
    3 ≤ k ||
      match resolve scope address with
      | .ok place => rank place.2 ≤ k
      | .error _ => true
  | _ => true

/-- The depth that is won where a keyword goes down into the value. -/
def gain (name : String) : Nat :=
  if name ∈ insiders then stride else 0

mutual

/-- Whether a depth is enough for a schema, apart from what levels of the value ask for. -/
def settles (scope : Scope) : Value → Nat → Bool
  | .object members, k =>
    0 < k &&
      if namesItself (.object members) then
        settlesMembers (scope.within (.object members)) members (k - 1)
      else settlesMembers scope members (k - 1)
  | .list items, k => 0 < k && settlesItems scope items k
  | _, k => 0 < k

def settlesItems (scope : Scope) : List Value → Nat → Bool
  | [], _ => true
  | v :: rest, k => settles scope v k && settlesItems scope rest k

def settlesMembers (scope : Scope) : List (String × Value) → Nat → Bool
  | [], _ => true
  | (name, v) :: rest, k =>
    (if name ∈ referrers then leadsBelow scope k v
      else if name ∈ Related.namers then settlesNamed scope v (k + gain name)
      else name ∉ appliers || settles scope v (k + gain name)) &&
      settlesMembers scope rest k

def settlesNamed (scope : Scope) : Value → Nat → Bool
  | .object members, k => settlesValues scope members k
  | _, _ => true

def settlesValues (scope : Scope) : List (String × Value) → Nat → Bool
  | [], _ => true
  | (_, v) :: rest, k => settles scope v k && settlesValues scope rest k

end

theorem settlesItems_iff {items : List Value} :
    settlesItems scope items k ↔ ∀ v ∈ items, settles scope v k := by
  induction items with
  | nil => simp [settlesItems]
  | cons v rest ih => rw [settlesItems, Bool.and_eq_true, List.forall_mem_cons, ih]

theorem settlesValues_iff : settlesValues scope members k ↔ ∀ m ∈ members, settles scope m.2 k := by
  induction members with
  | nil => simp [settlesValues]
  | cons m rest ih => rw [settlesValues, Bool.and_eq_true, List.forall_mem_cons, ih]

theorem settlesMembers_iff : settlesMembers scope members k ↔ ∀ m ∈ members,
      (if m.1 ∈ referrers then leadsBelow scope k m.2
        else if m.1 ∈ namers then settlesNamed scope m.2 (k + gain m.1)
        else m.1 ∉ appliers || settles scope m.2 (k + gain m.1)) = true := by
  induction members with
  | nil => simp [settlesMembers]
  | cons m rest ih => rw [settlesMembers, Bool.and_eq_true, List.forall_mem_cons, ih]

theorem pos_of_settles {a : Value} (h : settles scope a k) : 0 < k := by
  cases a <;> simp_all [settles]

theorem settles_object (h : settles scope (.object members) k) :
    settlesMembers (scope.within (.object members)) members (k - 1) := by
  rw [settles, Bool.and_eq_true] at h
  obtain ⟨-, h⟩ := h
  split at h
  · exact h
  · next hnames =>
    rw [within_eq (Bool.not_eq_true _ ▸ hnames)]
    exact h

theorem Holds.settles (h : Holds name v schema)
    (hmembers : settlesMembers scope members k) (hv : (name, v) ∈ members) :
    Schema.settles scope schema (k + gain name) := by
  have hinside := settlesMembers_iff.mp hmembers (name, v) hv
  refine h.elim (fun hname inner hobject => ?_) (fun hname => ?_) (fun items hlist => ?_)
  · have href : ∀ name ∈ namers, name ∉ referrers := by decide
    rw [if_neg (href name hname), if_pos hname, hobject] at hinside
    exact settlesValues_iff.mp hinside
  · have href : ∀ name ∈ appliers, name ∉ referrers := by decide
    rw [if_neg (href name hname), if_neg (not_namer hname)] at hinside
    simpa [hname] using hinside
  · rw [Schema.settles, Bool.and_eq_true] at hlist
    exact settlesItems_iff.mp hlist.2

theorem Holds.plain {places : List (Scope × Value)} (h : Holds name v schema)
    (hmembers : plainMembers places scope members) (hv : (name, v) ∈ members) :
    Schema.plain places scope schema := by
  have hinside := (plainMembers_iff.mp hmembers (name, v) hv).2
  refine h.elim (fun hname inner hobject => ?_) (fun hname => ?_) (fun items hlist => ?_)
  · rw [if_pos hname, hobject] at hinside
    exact plainValues_iff.mp hinside
  · rwa [if_neg (not_namer hname)] at hinside
  · exact plainItems_iff.mp hlist

/-- A place inside the latest metaschema, with depth for its rank. -/
structure Ranked (k : Nat) (σ σ' : Scope) (a : Value) : Prop where
  scope : σ' = σ
  plain : plain (places .latest) σ a = true
  settles : ∃ j ≤ k, settles σ a j = true

theorem settles_latest : ∀ p ∈ places .latest, settles p.1 p.2 (rank p.2) := by
  decide +kernel

theorem Ranked.of_place {p : Scope × Value} (hp : p ∈ places .latest) (hk : rank p.2 ≤ k) :
    Ranked k p.1 p.1 p.2 :=
  ⟨rfl, plain_places .latest p hp, rank p.2, hk, settles_latest p hp⟩

theorem Ranked.held (h : Ranked (k + 1) σ σ' (.object members)) (hv : (name, v) ∈ members)
    (hholds : Holds name v schema) :
    Ranked (k + gain name) (σ.within (.object members)) (σ'.within (.object members)) schema := by
  obtain ⟨rfl, hplain, j, hj, hsettles⟩ := h
  exact ⟨rfl, hholds.plain (plain_object hplain).2 hv, j - 1 + gain name, by omega,
    hholds.settles (settles_object hsettles) hv⟩

theorem mem_places_of_plainKeyword {places : List (Scope × Value)} {address : String}
    {place : Scope × Value}
    (h : plainKeyword places scope name (.str address)) (hname : name ∈ referrers)
    (hresolve : resolve scope address = .ok place) : place ∈ places := by
  rw [plainKeyword, Bool.and_eq_true, Bool.or_eq_true, decide_eq_true_eq] at h
  have hleads := h.2.resolve_left (not_not.mpr hname)
  rw [leadsTo, hresolve] at hleads
  exact of_decide_eq_true hleads

theorem rank_le_of_leadsBelow {address : String} {place : Scope × Value}
    (h : leadsBelow scope k (.str address)) (hresolve : resolve scope address = .ok place) :
    rank place.2 ≤ k := by
  rw [leadsBelow, hresolve, Bool.or_eq_true, decide_eq_true_eq] at h
  rcases h with hk | hrank
  · exact (rank_le _).trans hk
  · exact of_decide_eq_true hrank

theorem settling_ranked : Settling stride Ranked where
  pos h := by
    obtain ⟨-, -, j, hj, hsettles⟩ := h
    exact (pos_of_settles hsettles).trans_le hj
  draft h := by rw [h.scope]
  inPlace h hv hschema := by
    obtain ⟨name', v', hv', hname', hholds⟩ := holds_of_mem_inPlace hv hschema
    have hheld := h.held hv' hholds
    rwa [gain, if_neg hname', Nat.add_zero] at hheld
  inside h hv hschema := by
    obtain ⟨hname, hholds⟩ := holds_of_mem_inside hschema
    have hheld := h.held hv hholds
    rwa [gain, if_pos hname] at hheld
  reference := by
    intro k σ σ' members name address h hv hname
    obtain ⟨rfl, hplain, j, hj, hsettles⟩ := h
    cases hresolve : resolve (σ'.within (.object members)) address with
    | error fault => exact .inl ⟨fault, rfl, rfl⟩
    | ok place =>
      -- every reference leads to one of the places, and its rank is less than the depth that is left
      have hleads := (plainMembers_iff.mp (plain_object hplain).2 _ hv).1
      have hbelow := settlesMembers_iff.mp (settles_object hsettles) _ hv
      rw [if_pos hname] at hbelow
      have hrank := rank_le_of_leadsBelow hbelow hresolve
      exact .inr ⟨place.1, place.1, place.2, rfl, rfl,
        .of_place (mem_places_of_plainKeyword hleads hname hresolve) (by omega)⟩

theorem findings_latest (formats : Bool) {n m : Nat} {x : Value} (hn : 3 + stride * x.nesting ≤ n)
    (hm : 3 + stride * x.nesting ≤ m) : findings formats m (origin .latest) Metaschema.latest x
      = findings formats n (origin .latest) Metaschema.latest x :=
  findings_eq_of_settling settling_ranked formats (.of_place (.head _) (rank_le _)) hn hm

end SheetIntake.Schema
