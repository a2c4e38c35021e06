import SheetIntake.Proofs.AkinSchemas

/-!
# Checks of akin schemas

Whether a schema is well formed is asked of the metaschema of its draft, a schema like others. The
metaschemas of draft seven and of the latest draft use no keyword that stops at the first finding,
and they divide by nothing; wherever their references lead, that holds again. So they do not tell
akin schemas apart, not even where the check fails. In draft four `1.0` is no integer, and so its
metaschema does tell some of them apart.
-/

namespace SheetIntake.Schema

open Metaschema (ofDraft core metaData content partUri)
open Value
open Findings (Foretells)

/-! ## Types -/

theorem isInteger_iff {x : Binary64} : x.isInteger ↔ ∃ n : ℤ, x.amount? = some (.exactly n) := by
  cases x with
  | nan => exact iff_of_false Bool.false_ne_true fun ⟨_, h⟩ => nomatch h
  | infinite negative =>
    refine iff_of_false Bool.false_ne_true fun ⟨n, h⟩ => ?_
    cases negative <;> cases h
  | finite negative m e h =>
    rw [Binary64.isInteger_finite_iff]
    simp [Binary64.amount?]

variable {draft : Draft}

theorem isType_integer_iff (hdraft : draft ≠ .four) {v : Value} {amount : Amount}
    (hv : v.amount? = some amount) : isType draft v "integer" ↔ ∃ n : ℤ, amount = .exactly n := by
  cases v with
  | int n => exact ⟨fun _ => ⟨n, (Option.some.inj hv).symm⟩, fun _ => rfl⟩
  | float x =>
    have hx : x.amount? = some amount := hv
    have htype : isType draft (.float x) "integer" = (draft ≠ .four && x.isInteger) := rfl
    rw [htype, decide_eq_true hdraft, Bool.true_and, isInteger_iff, hx]
    simp
  | _ => cases hv

/-- Akin values have the same types, except in draft four. -/
theorem isType_eq (hdraft : draft ≠ .four) {x y : Value} (h : Akin x y) (name : String) :
    isType draft x name = isType draft y name := by
  cases h with
  | same => rfl
  | number h =>
    obtain ⟨amount, hx, hy⟩ := sameNumber_iff.mp h
    by_cases hname : name = "integer"
    · rw [hname, Bool.eq_iff_iff, isType_integer_iff hdraft hx, isType_integer_iff hdraft hy]
    · unfold isType
      obtain ⟨_ | _⟩ := isNumber_of_amount? hx <;> obtain ⟨_ | _⟩ := isNumber_of_amount? hy
      all_goals
        split
        all_goals first | rfl | exact absurd rfl hname
  | list | object =>
    unfold isType
    split <;> rfl

/-! ## Plain schemas -/

def isNumeric : Value → Bool
  | .int _ | .float _ => true
  | _ => false

/-- Whether a reference leads to one of some places, if it leads anywhere. -/
def leadsTo (places : List (Scope × Value)) (scope : Scope) : Value → Bool
  | .str address =>
    match resolve scope address with
    | .ok place => decide (place ∈ places)
    | .error _ => true
  | _ => true

/-- Whether a keyword neither stops at the first finding, nor divides, nor leads elsewhere. -/
def plainKeyword (places : List (Scope × Value)) (scope : Scope) (name : String) (v : Value) :
    Bool :=
  name ∉ Related.hasty && (name ≠ "multipleOf" || !isNumeric v) &&
    (name ∉ ["$ref", "$dynamicRef"] || leadsTo places scope v)

/-- Whether a schema names its draft or its address, so that the scope inside may be another. -/
def namesItself (schema : Value) : Bool :=
  (schema.get? "$schema").isSome || (schema.get? "id").isSome || (schema.get? "$id").isSome

mutual

/-- Whether a schema uses plain keywords only, in all schemas inside it. -/
def plain (places : List (Scope × Value)) (scope : Scope) : Value → Bool
  | .object members =>
    if namesItself (.object members) then
      (scope.within (.object members)).draft ≠ .four &&
        plainMembers places (scope.within (.object members)) members
    else scope.draft ≠ .four && plainMembers places scope members
  | .list items => plainItems places scope items
  | _ => true

def plainItems (places : List (Scope × Value)) (scope : Scope) : List Value → Bool
  | [] => true
  | v :: rest => plain places scope v && plainItems places scope rest

def plainMembers (places : List (Scope × Value)) (scope : Scope) : List (String × Value) → Bool
  | [] => true
  | (name, v) :: rest =>
    plainKeyword places scope name v &&
      (if name ∈ Related.namers then plainNamed places scope v else plain places scope v) &&
      plainMembers places scope rest

/-- Names of schemas are not keywords. -/
def plainNamed (places : List (Scope × Value)) (scope : Scope) : Value → Bool
  | .object members => plainValues places scope members
  | _ => true

def plainValues (places : List (Scope × Value)) (scope : Scope) : List (String × Value) → Bool
  | [] => true
  | (_, v) :: rest => plain places scope v && plainValues places scope rest

end

section

variable {places : List (Scope × Value)} {scope : Scope}

theorem plainItems_iff {items : List Value} :
    plainItems places scope items ↔ ∀ v ∈ items, plain places scope v := by
  induction items with
  | nil => simp [plainItems]
  | cons v rest ih => rw [plainItems, Bool.and_eq_true, List.forall_mem_cons, ih]

variable {members : List (String × Value)}

theorem plainValues_iff :
    plainValues places scope members ↔ ∀ m ∈ members, plain places scope m.2 := by
  induction members with
  | nil => simp [plainValues]
  | cons m rest ih => rw [plainValues, Bool.and_eq_true, List.forall_mem_cons, ih]

theorem plainMembers_iff : plainMembers places scope members ↔ ∀ m ∈ members,
      plainKeyword places scope m.1 m.2 ∧ (if m.1 ∈ Related.namers then plainNamed places scope m.2
          else plain places scope m.2) := by
  induction members with
  | nil => simp [plainMembers]
  | cons m rest ih =>
    rw [plainMembers, Bool.and_eq_true, Bool.and_eq_true, List.forall_mem_cons, ih]

theorem within_eq {schema : Value} (h : namesItself schema = false) :
    scope.within schema = scope := by
  rw [namesItself, Bool.or_eq_false_iff, Bool.or_eq_false_iff, Option.isSome_eq_false_iff,
    Option.isSome_eq_false_iff, Option.isSome_eq_false_iff, Option.isNone_iff_eq_none,
    Option.isNone_iff_eq_none, Option.isNone_iff_eq_none] at h
  obtain ⟨⟨hschema, hid⟩, hid'⟩ := h
  have hdraft : Draft.ofSchema scope.draft schema = scope.draft := by
    rw [Draft.ofSchema, hschema]
  have haddress : Scope.ownAddress? scope.draft schema = none := by
    have hkeyword : schema.get? scope.draft.idKeyword = none := by
      cases scope.draft <;> assumption
    rw [Scope.ownAddress?, hkeyword]
    split <;> rfl
  rw [Scope.within, Scope.enter, hdraft, haddress]

theorem plain_object (h : plain places scope (.object members)) :
    (scope.within (.object members)).draft ≠ .four
      ∧ plainMembers places (scope.within (.object members)) members := by
  rw [plain] at h
  split at h
  · rw [Bool.and_eq_true] at h
    exact ⟨of_decide_eq_true h.1, h.2⟩
  · next hnames =>
    rw [Bool.and_eq_true] at h
    rw [within_eq (Bool.not_eq_true _ ▸ hnames)]
    exact ⟨of_decide_eq_true h.1, h.2⟩

/-- The same plain schema on both sides. -/
def Plain (places : List (Scope × Value)) (scope : Scope) (a b : Value) : Prop :=
  a = b ∧ plain places scope a = true

theorem listed_plain : Listed (Plain places scope) where
  akin h := h.1 ▸ .same _
  items := by
    rintro xs ys ⟨h, hplain⟩
    rw [← Value.list.inj h]
    rw [plain, plainItems_iff] at hplain
    exact List.forall₂_same.mpr fun x hx => ⟨rfl, hplain x hx⟩

theorem named_plain {v : Value} (h : plainNamed places scope v) :
    Named (Plain places scope) v v := by
  have hvalues : ∀ m ∈ membersOf v, plain places scope m.2 := by
    cases v with
    | object members =>
      rw [plainNamed, plainValues_iff] at h
      exact h
    | _ => exact fun m hm => absurd hm List.not_mem_nil
  exact ⟨.same v, fun hx => ⟨_, hx, rfl, hvalues _ hx⟩, fun hy => ⟨_, hy, rfl, hvalues _ hy⟩⟩

theorem mem_of_mem_applicable {draft : Draft} {m : String × Value}
    (h : m ∈ applicable draft members) : m ∈ members := by
  unfold applicable at h
  split at h
  · split at h
    · exact h
    · exact h
    · next hget =>
      rw [List.mem_singleton.mp h]
      exact Assoc.mem_of_get? hget
  · exact h

theorem isMultiple_of_not_numeric {d : Value} (h : isNumeric d = false) (v : Value) :
    Check.isMultiple v d = .ok true := by
  cases d with
  | int | float => cases h
  | _ => cases v <;> rfl

end

section

variable {places : List (Scope × Value)} (hplaces : ∀ p ∈ places, plain places p.1 p.2 = true)
  {apply : Scope → Value → Value → Findings} (formats : Bool)
  (happly : ∀ {σ : Scope} {a x y : Value}, plain places σ a = true → Akin x y →
    (apply σ a x).Foretells (apply σ a y))
  {τ : Scope} {members : List (String × Value)} {x y : Value}

include happly

theorem related_plain (hdraft : τ.draft ≠ .four) (hmembers : plainMembers places τ members)
    (hxy : Akin x y) : Related (Plain places τ) Akin (checkIn apply formats τ members x)
      (checkIn apply formats τ members y) where
  schemas := listed_plain
  values := parts_akin
  texts _ := .same _
  draft := rfl
  formats := rfl
  members := .same _
  branch := by
    intro name p q hname hp hq
    have hkeyword := (plainMembers_iff.mp hmembers (name, p) (Assoc.mem_of_get? hp)).2
    have hnamers : name ∉ Related.namers := by rcases hname with rfl | rfl <;> decide
    rw [if_neg hnamers] at hkeyword
    exact ⟨Option.some.inj (hp.symm.trans hq), hkeyword⟩
  value := hxy
  types := isType_eq hdraft hxy
  apply hpq hv := hpq.1 ▸ happly hpq.2 hv

include hplaces

theorem fits_plain (hmembers : plainMembers places τ members) (hxy : Akin x y)
    {name : String} {v : Value} (hv : (name, v) ∈ members) :
    Related.Fits (Plain places τ) (checkIn apply formats τ members x)
      (checkIn apply formats τ members y) name v v := by
  obtain ⟨hkeyword, hinside⟩ := plainMembers_iff.mp hmembers (name, v) hv
  rw [plainKeyword, Bool.and_eq_true, Bool.and_eq_true] at hkeyword
  obtain ⟨⟨hhasty, hdivisor⟩, hreference⟩ := hkeyword
  refine ⟨fun hname => ⟨rfl, ?_⟩, fun hname => named_plain ?_, fun hname => ?_, fun hname => ?_,
    fun hname => ?_⟩
  · rwa [if_neg hname] at hinside
  · rwa [if_pos hname] at hinside
  · exact absurd hname (of_decide_eq_true hhasty)
  · have hnumeric : isNumeric v = false := by simpa [hname] using hdivisor
    rw [isMultiple_of_not_numeric hnumeric, isMultiple_of_not_numeric hnumeric]
  · have hleads : leadsTo places τ v := by
      rcases hname with rfl | rfl <;> simpa using hreference
    unfold Check.reference onText checkIn
    cases v with
    | str address =>
      rw [leadsTo] at hleads
      dsimp only
      cases hplace : resolve τ address with
      | error fault => exact .of_none rfl
      | ok place =>
        rw [hplace] at hleads
        exact happly (hplaces place (of_decide_eq_true hleads)) hxy
    | _ => exact .refl _

/-- One step of the search: a plain schema does not tell akin values apart. -/
theorem foretells_findingsBy_plain {σ : Scope} {a : Value} (ha : plain places σ a)
    (hxy : Akin x y) :
    (findingsBy apply formats σ a x).Foretells (findingsBy apply formats σ a y) := by
  refine foretells_findingsBy (.same a) fun xs ys hxs hys => ?_
  subst hxs
  cases hys
  obtain ⟨hdraft, hmembers⟩ := plain_object ha
  refine foretells_each_keyword (related_plain formats happly hdraft hmembers hxy)
    (fun name v hv => ⟨v, hv, ?_⟩) (fun name v hv => ⟨v, hv, ?_⟩)
  all_goals exact fits_plain hplaces formats happly hmembers hxy (mem_of_mem_applicable hv)

end

variable {a : Value}

theorem foretells_findings_plain {places : List (Scope × Value)}
    (hplaces : ∀ p ∈ places, plain places p.1 p.2) (formats : Bool) (depth : Nat) {σ : Scope}
    {x y : Value} (ha : plain places σ a) (hxy : Akin x y) :
    (findings formats depth σ a x).Foretells (findings formats depth σ a y) := by
  induction depth generalizing σ a x y with
  | zero => exact .of_none rfl
  | succ depth ih => exact foretells_findingsBy_plain hplaces formats ih ha hxy

/-! ## The metaschemas -/

/-- The scope inside the metaschema of a draft. -/
def origin (draft : Draft) : Scope :=
  (Scope.start draft (ofDraft draft)).within (ofDraft draft)

/-- A document and its definitions. -/
def withDefinitions (scope : Scope) (keyword : String) : List (Scope × Value) :=
  (scope, scope.root) ::
    (membersOf ((scope.root.get? keyword).getD .null)).map fun m => (scope, m.2)

/-- Where the references inside a metaschema lead. -/
def places : Draft → List (Scope × Value)
  | .four => []
  | .seven => withDefinitions (origin .seven) "definitions"
  | .latest =>
    (origin .latest, Metaschema.latest) ::
      [("core", core), ("applicator", Metaschema.applicator),
        ("unevaluated", Metaschema.unevaluated), ("validation", Metaschema.validation),
        ("meta-data", metaData), ("format-annotation", Metaschema.formatAnnotation),
        ("content", content)].flatMap fun p => withDefinitions
          { origin .latest with base := partUri p.1, root := p.2 } "$defs"

theorem plain_places (draft : Draft) : ∀ p ∈ places draft, plain (places draft) p.1 p.2 := by
  cases draft with
  | four => exact fun p hp => absurd hp List.not_mem_nil
  | seven => decide +kernel
  | latest =>
    -- one document at a time: an evaluation of them all holds too much at once
    refine List.forall_mem_cons.mpr ⟨by decide +kernel, List.forall_mem_flatMap.mpr ?_⟩
    simp only [List.forall_mem_cons, List.not_mem_nil, false_imp_iff, forall_const, and_true]
    refine ⟨?_, ?_, ?_, ?_, ?_, ?_, ?_⟩ <;> decide +kernel

/-- A metaschema has an address, so the scope inside it is the one with which a check begins. -/
theorem origin_eq_start (draft : Draft) : origin draft = Scope.start draft (ofDraft draft) := by
  cases draft <;> exact Eq.refl _

theorem within_origin (draft : Draft) : (origin draft).within (ofDraft draft) = origin draft := by
  conv_lhs => rw [origin_eq_start]
  rfl

variable {b : Value}

/-- The metaschemas of draft seven and of the latest draft do not tell akin schemas apart. -/
theorem foretells_metaschema (hdraft : draft ≠ .four) (h : Akin a b) :
    (findings true depthLimit (origin draft) (ofDraft draft) a).Foretells
      (findings true depthLimit (origin draft) (ofDraft draft) b) := by
  have horigin : (origin draft, ofDraft draft) ∈ places draft := by
    cases draft with
    | four => exact absurd rfl hdraft
    | seven | latest => exact .head _
  exact foretells_findings_plain (plain_places draft) true depthLimit
    (plain_places draft _ horigin) h

variable {schema : Value}

theorem checkSchema_eq_ok_iff : checkSchema draft schema = .ok () ↔
      (findings true depthLimit (origin draft) (ofDraft draft) schema).verdict = some true := by
  rw [origin_eq_start]
  unfold checkSchema
  dsimp only
  generalize findings true depthLimit (Scope.start draft (ofDraft draft))
    (ofDraft draft) schema = fs
  obtain ⟨_ | ⟨f, rest⟩, _ | fault⟩ := fs <;> simp [Findings.verdict]

theorem checkSchema_akin (hdraft : draft ≠ .four) (h : Akin a b) :
    checkSchema draft a = .ok () ↔ checkSchema draft b = .ok () := by
  rw [checkSchema_eq_ok_iff, checkSchema_eq_ok_iff]
  exact ⟨foretells_metaschema hdraft h true, foretells_metaschema hdraft h.symm true⟩

theorem draftOf_eq_ok (h : draftOf schema = .ok draft) : draft = Draft.ofSchema .latest schema := by
  cases schema with
  | null | int | float => cases h
  | _ => exact (Except.ok.inj h).symm

theorem draftOf_akin (h : Akin a b) (draft : Draft) :
    draftOf a = .ok draft ↔ draftOf b = .ok draft := by
  cases h.shape with
  | null => exact Iff.rfl
  | ints | intFloat | floatInt | floats =>
    exact iff_of_false Outcome.error_ne_ok Outcome.error_ne_ok
  | _ => exact Iff.of_eq (congrArg (Except.ok · = Except.ok draft) (ofSchema_eq h .latest))

theorem admitted_eq_ok_iff : admitted schema = .ok draft ↔
      draftOf schema = .ok draft ∧ checkSchema draft schema = .ok () := by
  unfold admitted
  constructor
  · intro h
    obtain ⟨d, hd, h⟩ := Outcome.bind_eq_ok.mp h
    obtain ⟨⟨⟩, hcheck, h⟩ := Outcome.bind_eq_ok.mp h
    cases h
    exact ⟨hd, hcheck⟩
  · rintro ⟨hd, hcheck⟩
    rw [hd, Outcome.ok_bind, hcheck]
    rfl

theorem admitted_akin (h : Akin a b) (hdraft : draft ≠ .four) :
    admitted a = .ok draft ↔ admitted b = .ok draft := by
  rw [admitted_eq_ok_iff, admitted_eq_ok_iff, draftOf_akin h, checkSchema_akin hdraft h]

end SheetIntake.Schema
