import SheetIntake.Proofs.Batches
import SheetIntake.Proofs.SchemaAgreement
import SheetIntake.Proofs.SearchDepth

/-!
# Schemas of records

A document that lists members is stored as the schema of records with exactly these members. Such a
schema is well formed if the schemas of the members are, and a value satisfies it if it is an object
with these members and no others, each of which satisfies its own schema. For that the schemas of the
members may not look beyond themselves: inside the record a reference to the whole schema means the
record. They also have to be schemas of the latest draft, which is that of the record.

* `checkSchema_record` — a record is well formed if the schemas of its members are.
* `create_accepts_records` — the values of a stored record.
-/

namespace SheetIntake.Schema

open Metaschema (core applicator validation metaData content partUri simpleTypes stringArray texts
  part ref mapOf typed typeKeyword whole latest schema)
open Assoc (get? isSome_get?_iff keys)

attribute [local simp] get? Value.get?

/-! ## The parts of the metaschema -/

/-- The parts of the latest metaschema: how it refers to them, their names and their documents. -/
def vocabularies : List (String × String × Value) :=
  [("meta/core", "core", core), ("meta/applicator", "applicator", applicator),
    ("meta/unevaluated", "unevaluated", Metaschema.unevaluated),
    ("meta/validation", "validation", validation),
    ("meta/meta-data", "meta-data", metaData),
    ("meta/format-annotation", "format-annotation", Metaschema.formatAnnotation),
    ("meta/content", "content", content)]

def partScope (name : String) (document : Value) : Scope :=
  { origin .latest with base := partUri name, root := document }

theorem resolve_meta : (resolve ((partScope "applicator" applicator).within applicator)
    "#meta").toOption = some (origin .latest, latest) := by
  decide +kernel

theorem resolve_vocabularies :
    ∀ q ∈ vocabularies, resolve (origin .latest) q.1 = .ok (partScope q.2.1 q.2.2, q.2.2) := by
  rw [← List.forall_iff_forall_mem]
  simp only [vocabularies, List.Forall]
  refine ⟨?_, ?_, ?_, ?_, ?_, ?_, ?_⟩ <;> rfl

theorem resolve_definitions : ∀ q ∈ [("#/$defs/simpleTypes", simpleTypes),
      ("#/$defs/stringArray", stringArray)],
    ∃ τ, resolve ((partScope "validation" validation).within validation) q.1 = .ok (τ, q.2) := by
  rw [← List.forall_iff_forall_mem]
  exact ⟨⟨_, rfl⟩, _, rfl⟩

/-! ## Keywords -/

/-- Nothing is found about a value under a schema, and nothing fails. -/
def Accepts (formats : Bool) (n : Nat) (σ : Scope) (schema x : Value) : Prop :=
  (findings formats n σ schema x).verdict = some true

theorem verdict_each_eq_true {α : Type} {f : α → Findings} {xs : List α} :
    (Findings.each f xs).verdict = some true ↔ ∀ x ∈ xs, (f x).verdict = some true := by
  rw [Findings.verdict_each_eq_some]
  constructor
  · intro h
    exact h.2.mp rfl
  · intro h
    exact ⟨fun x hx => ⟨true, h x hx⟩, iff_of_true rfl h⟩

section

variable {formats : Bool} {n : Nat} {σ : Scope} {members : List (String × Value)} {x : Value}

theorem applicable_of_get?_none {draft : Draft} (h : get? "$ref" members = none) :
    applicable draft members = members := by
  unfold applicable
  rw [h]
  split <;> rfl

theorem applicable_latest {draft : Draft} (h : draft = .latest) :
    applicable draft members = members := by
  rw [h]
  rfl

theorem accepts_object_iff
    (hmembers : applicable (σ.within (.object members)).draft members = members) :
    Accepts formats (n + 1) σ (.object members) x ↔ ∀ m ∈ members,
      ((checkIn (findings formats n) formats (σ.within (.object members)) members x).keyword
        m.1 m.2).verdict = some true := by
  rw [Accepts, findings, findingsBy, hmembers]
  exact verdict_each_eq_true

/-- A value satisfies a schema if no keyword finds anything, whatever else the check knows. -/
theorem accepts_of_keywords (hself : namesItself (.object members) = false)
    (href : get? "$ref" members = none)
    (h : ∀ c : Check, c.draft = σ.draft → c.value = x → c.apply = findings formats n σ →
      ∀ m ∈ members, (c.keyword m.1 m.2).verdict = some true) :
    Accepts formats (n + 1) σ (.object members) x := by
  have hscope : σ.within (.object members) = σ := within_eq hself
  rw [accepts_object_iff (applicable_of_get?_none href), hscope]
  exact h _ rfl rfl rfl

end

namespace Check

variable {c : Check} {v : Value} {name : String}

theorem keyword_eq_of_common {find : Check → Value → Findings}
    (hfind : get? name common = some find) : c.keyword name v = find c v := by
  have htable : get? name (table c.draft) = some find := by
    cases c.draft with
    | four => exact Assoc.get?_append_of_get? hfind _
    | _ => exact Assoc.get?_append_of_get? (Assoc.get?_append_of_get? hfind _) _
  rw [keyword, htable]

theorem keyword_type : c.keyword "type" v = c.type v := keyword_eq_of_common rfl

theorem keyword_properties : c.keyword "properties" v = c.properties v := keyword_eq_of_common rfl

theorem keyword_required : c.keyword "required" v = c.required v := keyword_eq_of_common rfl

theorem keyword_additionalProperties :
    c.keyword "additionalProperties" v = c.additionalProperties v := keyword_eq_of_common rfl

theorem keyword_allOf : c.keyword "allOf" v = c.allOf v := keyword_eq_of_common rfl

theorem keyword_anyOf : c.keyword "anyOf" v = c.anyOf v := keyword_eq_of_common rfl

theorem keyword_enum : c.keyword "enum" v = c.enum v := keyword_eq_of_common rfl

theorem keyword_items : c.keyword "items" v = c.items v := keyword_eq_of_common rfl

theorem keyword_uniqueItems : c.keyword "uniqueItems" v = c.uniqueItems v :=
  keyword_eq_of_common rfl

/-- Whether a word is a reference in a draft. -/
def refers (draft : Draft) (name : String) : Prop :=
  name = "$ref" ∨ name = "$dynamicRef" ∧ draft = .latest

theorem keyword_reference (hname : refers c.draft name) : c.keyword name v = c.reference v := by
  rcases hname with rfl | ⟨rfl, hdraft⟩
  · exact keyword_eq_of_common rfl
  · rw [keyword, hdraft]
    simp [table, common, sinceSeven, sinceLatest]

/-- The words of the metaschemas that are no keywords. -/
def words : List String :=
  ["$schema", "$id", "$dynamicAnchor", "title", "$defs", "definitions", "default"]

theorem verdict_word (hname : name ∈ words) : (c.keyword name v).verdict = some true := by
  have hnone : get? name (table c.draft) = none := by
    simp only [words, List.mem_cons, List.not_mem_nil, or_false] at hname
    rcases hname with rfl | rfl | rfl | rfl | rfl | rfl | rfl <;> cases c.draft <;>
      simp [table, common, sinceSeven, untilSeven, sinceLatest]
  rw [keyword, hnone]
  rfl

theorem verdict_ensure {keyword : String} {holds : Bool} {message : Unit → String} :
    (c.ensure keyword holds message).verdict = some true ↔ holds := by
  unfold ensure
  cases holds <;> simp [report, reportWith]

theorem verdict_type_str :
    (c.type (.str name)).verdict = some true ↔ isType c.draft c.value name := by
  unfold type
  rw [verdict_ensure]
  simp [isOfType]

theorem verdict_properties : (c.properties v).verdict = some true ↔ ∀ p ∈ membersOf v, ∀ y,
      c.value.get? p.1 = some y → (c.apply p.2 y).verdict = some true := by
  unfold properties onObject Value.get?
  cases c.value with
  | object members =>
    dsimp only
    rw [verdict_each_eq_true]
    refine forall₂_congr (fun p _ => ?_)
    cases get? p.1 members with
    | none | some y => simp
  | _ => simp

variable {xs : List (String × Value)}

theorem verdict_required (hvalue : c.value = .object xs) {names : List Value} :
    (c.required (.list names)).verdict = some true ↔ ∀ name ∈ names, hasMember xs name := by
  unfold required onObject onList
  rw [hvalue]
  rw [verdict_each_eq_true]
  exact forall₂_congr (fun name _ => verdict_ensure)

theorem verdict_additionalProperties_false (hvalue : c.value = .object xs) :
    (c.additionalProperties (.bool false)).verdict = some true
      ↔ ∀ m ∈ xs, c.isAdditional m.1 = false := by
  unfold additionalProperties onObject
  rw [hvalue]
  dsimp only
  rw [if_neg (by decide), verdict_ensure]
  simp [Value.truthy, List.filter_eq_nil_iff]

/-- Where all members are additional, a schema for them is asked of all. -/
theorem verdict_additionalProperties_of_object {schema : Value} (hschema : isObject schema)
    (hvalue : c.value = .object xs) (hall : ∀ name, c.isAdditional name) :
    (c.additionalProperties schema).verdict = some true
      ↔ ∀ m ∈ xs, (c.apply schema m.2).verdict = some true := by
  unfold additionalProperties onObject
  rw [hvalue]
  dsimp only
  rw [if_pos hschema, verdict_each_eq_true, List.filter_eq_self.mpr (fun m _ => hall m.1)]
  exact forall₂_congr (fun m _ => by rw [Related.verdict_applyAt])

theorem verdict_items_of_object {members : List (String × Value)} {xs : List Value}
    (hvalue : c.value = .list xs)
    (h : ∀ x ∈ xs, (c.apply (.object members) x).verdict = some true) :
    (c.items (.object members)).verdict = some true := by
  have hevery (start : Nat) {rest : List Value} (hrest : rest ⊆ xs) :
      (c.applyToItems (.object members) start rest).verdict = some true := by
    refine verdict_each_eq_true.mpr (fun p hp => ?_)
    rw [Related.verdict_applyAt]
    exact h p.1 (hrest (List.fst_mem_of_mem_zipIdx hp))
  unfold items onList restItems
  rw [hvalue]
  dsimp only
  split
  · split
    · rfl
    · exact hevery _ (List.drop_subset _ _)
  · exact hevery 0 (List.Subset.refl xs)

theorem verdict_uniqueItems_of_distinct {xs : List Value} (hvalue : c.value = .list xs)
    (h : allDistinct xs) : (c.uniqueItems v).verdict = some true := by
  unfold uniqueItems onList
  rw [hvalue]
  rw [verdict_ensure, h, Bool.or_true]

theorem verdict_anyOf_of_first {schema : Value} {rest : List Value}
    (h : (c.apply schema c.value).verdict = some true) :
    (c.anyOf (.list (schema :: rest))).verdict = some true := by
  have hcomplete : (c.apply schema c.value).complete = .ok [] := by
    rcases (c.apply schema c.value).complete_cases with ⟨fault, -, hnone⟩ | ⟨found, hfound, hsome⟩
    · cases hnone.symm.trans h
    · rw [h, Option.some.injEq, eq_comm, List.isEmpty_iff] at hsome
      rw [hfound, hsome]
  unfold anyOf itemsOf
  rw [firstAccepting, hcomplete]
  rfl

theorem allDistinct_texts {names : List String} (h : names.Nodup) :
    allDistinct (names.map .str) := by
  induction names with
  | nil => rfl
  | cons name rest ih =>
    obtain ⟨hname, hrest⟩ := List.nodup_cons.mp h
    have hother : (rest.map Value.str).any (fun w => (Value.str name).equal w) = false := by
      refine List.any_eq_false.mpr (fun w hw => ?_)
      obtain ⟨other, hmem, rfl⟩ := List.mem_map.mp hw
      rw [Value.equal, decide_eq_true_eq]
      exact fun heq => hname (heq ▸ hmem)
    rw [List.map_cons, allDistinct, hother, ih hrest]
    rfl

end Check

section

variable {formats : Bool} {n : Nat} {σ τ : Scope} {x : Value}

/-- A reference asks what the schema asks that it leads to. -/
theorem accepts_reference {name address : String} {schema : Value}
    (hname : Check.refers σ.draft name) (hresolve : resolve σ address = .ok (τ, schema)) :
    Accepts formats (n + 1) σ (.object [(name, .str address)]) x
      ↔ Accepts formats n τ schema x := by
  have hscope : σ.within (.object [(name, .str address)]) = σ := by
    refine within_eq ?_
    rcases hname with rfl | ⟨rfl, -⟩ <;> simp [namesItself]
  have hmembers : applicable σ.draft [(name, .str address)] = [(name, .str address)] := by
    rcases hname with rfl | ⟨rfl, -⟩ <;> simp [applicable]
  rw [accepts_object_iff (hscope.symm ▸ hmembers), hscope, List.forall_mem_singleton,
    Check.keyword_reference hname]
  simp only [Check.reference, onText, checkIn, hresolve]
  exact Iff.rfl

end

/-! ## Records -/

def recordMembers (properties : List (String × Value)) : List (String × Value) :=
  [("type", .str "object"), ("properties", .object properties),
    ("required", .list (properties.map (fun m => .str m.1))),
    ("additionalProperties", .bool false)]

def record (properties : List (String × Value)) : Value :=
  .object (recordMembers properties)

section

variable {formats : Bool} {n : Nat} {σ : Scope} {properties : List (String × Value)} {x : Value}

theorem within_record : σ.within (record properties) = σ :=
  within_eq rfl

theorem isAdditional_record {apply : Scope → Value → Value → Findings} {name : String} :
    (checkIn apply formats σ (recordMembers properties) x).isAdditional name
      = (get? name properties).isNone := by
  simp [Check.isAdditional, checkIn, recordMembers, keys, membersOf]

theorem accepts_record_iff :
    Accepts formats (n + 1) σ (record properties) x ↔ ∃ members, x = .object members
      ∧ (∀ m ∈ properties, ∀ y, get? m.1 members = some y → Accepts formats n σ m.2 y)
      ∧ (∀ m ∈ properties, m.1 ∈ keys members) ∧ ∀ m ∈ members, m.1 ∈ keys properties := by
  have hscope : σ.within (.object (recordMembers properties)) = σ := within_record
  rw [record, accepts_object_iff (applicable_of_get?_none rfl), hscope]
  -- of the check itself only these three facts are used
  generalize hc : checkIn (findings formats n) formats σ (recordMembers properties) x = c
  have hadditional (name : String) :
      c.isAdditional name = (get? name properties).isNone := hc ▸ isAdditional_record
  have hvalue : c.value = x := hc ▸ rfl
  have happly : c.apply = findings formats n σ := hc ▸ rfl
  simp only [recordMembers, List.forall_mem_cons, List.not_mem_nil, false_implies, implies_true,
    and_true, Check.keyword_type, Check.keyword_properties, Check.keyword_required,
    Check.keyword_additionalProperties]
  cases x with
  | object members =>
    rw [Check.verdict_type_str, Check.verdict_properties, Check.verdict_required hvalue,
      Check.verdict_additionalProperties_false hvalue, hvalue, happly]
    constructor
    · rintro ⟨-, hparts, hrequired, hothers⟩
      refine ⟨members, rfl, hparts, fun m hm => ?_, fun m hm => ?_⟩
      · exact isSome_get?_iff.mp (hrequired _ (List.mem_map_of_mem hm))
      · have hknown := hothers m hm
        rw [hadditional, Option.isNone_eq_false_iff] at hknown
        exact isSome_get?_iff.mp hknown
    · rintro ⟨_, ⟨⟩, hparts, hrequired, hothers⟩
      refine ⟨rfl, hparts, fun name hname => ?_, fun m hm => ?_⟩
      · obtain ⟨m, hm, rfl⟩ := List.mem_map.mp hname
        exact isSome_get?_iff.mpr (hrequired m hm)
      · rw [hadditional, Option.isNone_eq_false_iff]
        exact isSome_get?_iff.mpr (hothers m hm)
  | _ =>
    rw [Check.verdict_type_str, hvalue]
    simp [isType]

end

/-! ## Records are well formed -/

section

variable {n : Nat} {σ : Scope} {x : Value}

/-- The metaschema and its parts are about objects and truth values. -/
def isSchema : Value → Bool
  | .object _ | .bool _ => true
  | _ => false

theorem verdict_type_schema {c : Check} : (c.type (texts ["object", "boolean"])).verdict = some true
      ↔ isSchema c.value := by
  unfold Check.type texts
  rw [Check.verdict_ensure]
  cases hvalue : c.value <;> simp [Check.isOfType, isType, isSchema, hvalue]

theorem draft_part (name : String) (properties defs : List (String × Value)) :
    (σ.within (part name properties defs)).draft = .latest := by
  rw [draft_within]
  have huri : Draft.ofUri? Draft.latest.uri = some .latest := rfl
  simp [Draft.ofSchema, part, schema, huri]

section

variable {members properties keywords : List (String × Value)}
  (hmembers : applicable (σ.within (.object members)).draft members = members)

include hmembers

/-- Words are not looked at. -/
theorem accepts_document_iff (hkeywords : members.filter (·.1 ∉ Check.words) = keywords) :
    Accepts true (n + 1) σ (.object members) x ↔ ∀ m ∈ keywords,
      ((checkIn (findings true n) true (σ.within (.object members)) members x).keyword
        m.1 m.2).verdict = some true := by
  rw [accepts_object_iff hmembers, ← hkeywords]
  simp only [List.mem_filter, decide_eq_true_eq]
  refine ⟨fun h m hm => h m hm.1, fun h m hm => ?_⟩
  by_cases hword : m.1 ∈ Check.words
  · exact Check.verdict_word hword
  · exact h m ⟨hm, hword⟩

theorem accepts_described_iff (hkeywords : members.filter (·.1 ∉ Check.words)
      = [("type", texts ["object", "boolean"]), ("properties", .object properties)]) :
    Accepts true (n + 1) σ (.object members) x ↔ isSchema x
      ∧ ∀ p ∈ properties, ∀ y, x.get? p.1 = some y →
        Accepts true n (σ.within (.object members)) p.2 y := by
  rw [accepts_document_iff hmembers hkeywords, List.forall_mem_cons, List.forall_mem_singleton,
    Check.keyword_type, Check.keyword_properties, verdict_type_schema, Check.verdict_properties]
  exact Iff.rfl

end

def propertiesOf (document : Value) : List (String × Value) :=
  membersOf ((document.get? "properties").getD .null)

theorem propertiesOf_part (name : String) (properties defs : List (String × Value)) :
    propertiesOf (part name properties defs) = properties := by
  simp [propertiesOf, part, schema, membersOf]

variable {name : String} {properties : List (String × Value)}

theorem accepts_part_iff {defs : List (String × Value)} :
    Accepts true (n + 1) σ (part name properties defs) x ↔ isSchema x
      ∧ ∀ p ∈ propertiesOf (part name properties defs), ∀ y, x.get? p.1 = some y →
        Accepts true n (σ.within (part name properties defs)) p.2 y := by
  rw [propertiesOf_part]
  refine accepts_described_iff (applicable_latest (draft_part name properties defs)) ?_
  cases defs <;> simp [Check.words, schema]

/-- The metaschema asks what its parts ask, and looks at some members itself. -/
theorem accepts_latest_iff : Accepts true (n + 1) (origin .latest) latest x
    ↔ (∀ q ∈ vocabularies, Accepts true n (origin .latest) (ref q.1) x) ∧ isSchema x
      ∧ ∀ p ∈ propertiesOf latest, ∀ y, x.get? p.1 = some y →
        Accepts true n (origin .latest) p.2 y := by
  have hkeywords : (membersOf latest).filter (·.1 ∉ Check.words)
      = [("allOf", .list (vocabularies.map (ref ·.1))),
        ("type", texts ["object", "boolean"]),
        ("properties", .object (propertiesOf latest))] := rfl
  have hscope : (origin .latest).within (.object (membersOf latest)) = origin .latest :=
    within_origin .latest
  refine (accepts_document_iff (applicable_of_get?_none rfl) hkeywords).trans ?_
  rw [List.forall_mem_cons, List.forall_mem_cons, List.forall_mem_singleton, hscope,
    Check.keyword_allOf, Check.keyword_type, Check.keyword_properties, verdict_type_schema,
    Check.verdict_properties]
  exact and_congr (verdict_each_eq_true.trans List.forall_mem_map) Iff.rfl

theorem accepts_origin (hx : isSchema x)
    (hparts : vocabularies.Forall fun q => Accepts true n (partScope q.2.1 q.2.2) q.2.2 x)
    (hown : ∀ p ∈ propertiesOf latest, x.get? p.1 = none) :
    Accepts true (n + 2) (origin .latest) latest x := by
  refine accepts_latest_iff.mpr ⟨fun q hq => ?_, hx, fun p hp y hy => ?_⟩
  · exact (accepts_reference (.inl rfl) (resolve_vocabularies q hq)).mpr
      (List.forall_iff_forall_mem.mp hparts q hq)
  · cases (hown p hp).symm.trans hy

/-- A part that describes no member of a schema has nothing to say. -/
theorem accepts_part {defs : List (String × Value)} (hx : isSchema x)
    (hnone : ∀ p ∈ propertiesOf (part name properties defs), x.get? p.1 = none) :
    Accepts true (n + 1) σ (part name properties defs) x := by
  refine accepts_part_iff.mpr ⟨hx, fun p hp y hy => ?_⟩
  cases (hnone p hp).symm.trans hy

theorem accepts_origin_bool (b : Bool) :
    Accepts true (n + 3) (origin .latest) latest (.bool b) := by
  refine accepts_origin rfl ?_ (fun _ _ => rfl)
  simp only [vocabularies, List.Forall]
  refine ⟨?_, ?_, ?_, ?_, ?_, ?_, ?_⟩ <;> exact accepts_part rfl fun _ _ => rfl

theorem accepts_whole_iff :
    Accepts true (n + 1) ((partScope "applicator" applicator).within applicator) whole x
      ↔ Accepts true n (origin .latest) latest x := by
  refine accepts_reference (.inr ⟨rfl, draft_part _ _ _⟩) ?_
  have hplace := resolve_meta
  cases hresolve : resolve _ "#meta" <;> rw [hresolve] at hplace
  exacts [absurd hplace (Option.some_ne_none _).symm, congrArg _ (Option.some.inj hplace)]

variable {formats : Bool}

theorem accepts_mapOf_iff {member : Value} {xs : List (String × Value)}
    (hmember : isObject member) : Accepts formats (n + 1) σ (mapOf member) (.object xs)
      ↔ ∀ m ∈ xs, Accepts formats n σ member m.2 := by
  have hscope : σ.within (mapOf member) = σ := within_eq rfl
  rw [mapOf, accepts_object_iff (applicable_of_get?_none rfl), ← mapOf, hscope]
  simp only [List.forall_mem_cons, List.not_mem_nil, false_implies, implies_true, and_true,
    Check.keyword_type, Check.keyword_additionalProperties]
  rw [Check.verdict_additionalProperties_of_object hmember rfl (fun _ => rfl)]
  refine ⟨fun h => h.2.1, fun h => ⟨?_, h, Check.verdict_word (by decide)⟩⟩
  exact Check.verdict_type_str.mpr rfl

theorem accepts_typed (htype : isType σ.draft x name) :
    Accepts formats (n + 1) σ (typed name) x := by
  refine accepts_of_keywords rfl rfl ?_
  intro c hdraft hvalue _ m hm
  obtain rfl := List.mem_singleton.mp hm
  rw [Check.keyword_type, Check.verdict_type_str, hdraft, hvalue]
  exact htype

def typeNames : List String :=
  ["array", "boolean", "integer", "null", "number", "object", "string"]

theorem accepts_simpleTypes (hname : name ∈ typeNames) :
    Accepts formats (n + 1) σ simpleTypes (.str name) := by
  refine accepts_of_keywords rfl rfl ?_
  intro c _ hvalue _ m hm
  obtain rfl := List.mem_singleton.mp hm
  rw [Check.keyword_enum, Check.enum, Check.verdict_ensure, hvalue]
  refine List.any_eq_true.mpr ⟨.str name, List.mem_map_of_mem hname, ?_⟩
  rw [Value.equal, decide_eq_true_eq]

theorem accepts_typeKeyword {address : String} (h : Accepts formats n σ (ref address) x) :
    Accepts formats (n + 1) σ (typeKeyword address) x := by
  refine accepts_of_keywords rfl rfl ?_
  intro c _ hvalue happly m hm
  obtain rfl := List.mem_singleton.mp hm
  rw [Check.keyword_anyOf]
  refine Check.verdict_anyOf_of_first ?_
  rw [happly, hvalue]
  exact h

theorem accepts_stringArray {names : List String} (hnames : names.Nodup) :
    Accepts formats (n + 2) σ stringArray (.list (names.map .str)) := by
  refine accepts_of_keywords rfl rfl ?_
  intro c _ hvalue happly m hm
  simp only [List.mem_cons, List.not_mem_nil, or_false] at hm
  rcases hm with rfl | rfl | rfl | rfl
  · rw [Check.keyword_type, Check.verdict_type_str, hvalue]
    rfl
  · rw [Check.keyword_items]
    refine Check.verdict_items_of_object hvalue (fun x hx => ?_)
    obtain ⟨name, -, rfl⟩ := List.mem_map.mp hx
    rw [happly]
    exact accepts_typed rfl
  · rw [Check.keyword_uniqueItems]
    exact Check.verdict_uniqueItems_of_distinct hvalue (Check.allDistinct_texts hnames)
  · exact Check.verdict_word (by decide)

theorem accepts_definition {address : String} {schema : Value}
    (hq : (address, schema) ∈ [("#/$defs/simpleTypes", simpleTypes),
      ("#/$defs/stringArray", stringArray)]) (h : ∀ τ : Scope, Accepts true n τ schema x) :
    Accepts true (n + 1) ((partScope "validation" validation).within
      validation) (ref address) x := by
  obtain ⟨τ, hτ⟩ := resolve_definitions _ hq
  exact (accepts_reference (.inl rfl) hτ).mpr (h τ)

def recordNames : List String :=
  ["type", "properties", "required", "additionalProperties"]

/-- An object with no other keywords than those of a record, and with values for them that the
metaschema accepts. -/
structure Shaped (n : Nat) (x : Value) : Prop where
  isObject : isObject x = true
  names : ∀ name y, x.get? name = some y → name ∈ recordNames
  type : ∀ y, x.get? "type" = some y → ∃ name ∈ typeNames, y = .str name
  properties : ∀ y, x.get? "properties" = some y → ∃ properties, y = .object properties
    ∧ ∀ m ∈ properties, Accepts true (n + 2) (origin .latest) Metaschema.latest m.2
  required : ∀ y, x.get? "required" = some y →
    ∃ names : List String, names.Nodup ∧ y = .list (names.map .str)
  additionalProperties : ∀ y, x.get? "additionalProperties" = some y →
    Accepts true (n + 3) (origin .latest) Metaschema.latest y

namespace Shaped

variable (h : Shaped n x)

include h

theorem isSchema : isSchema x := by
  cases x with
  | object => rfl
  | _ => cases h.isObject

theorem get?_eq_none {others : List (String × Value)} (hother : ∀ p ∈ others, p.1 ∉ recordNames) :
    ∀ p ∈ others, x.get? p.1 = none :=
  fun p hp => Option.eq_none_iff_forall_ne_some.mpr fun y hy => hother p hp (h.names p.1 y hy)

theorem accepts_applicator :
    Accepts true (n + 5) (partScope "applicator" applicator) applicator x := by
  have hdescribed : ∀ p ∈ propertiesOf applicator, p.1 ∈ recordNames →
      p = ("properties", mapOf whole) ∨ p = ("additionalProperties", whole) := by decide
  refine accepts_part_iff.mpr ⟨h.isSchema, fun p hp y hy => ?_⟩
  rcases hdescribed p hp (h.names p.1 y hy) with rfl | rfl
  · obtain ⟨properties, rfl, hproperties⟩ := h.properties y hy
    exact (accepts_mapOf_iff rfl).mpr (fun m hm => accepts_whole_iff.mpr (hproperties m hm))
  · exact accepts_whole_iff.mpr (h.additionalProperties y hy)

theorem accepts_validation :
    Accepts true (n + 5) (partScope "validation" validation) validation x := by
  have hdescribed : ∀ p ∈ propertiesOf validation, p.1 ∈ recordNames →
      p = ("type", typeKeyword "#/$defs/simpleTypes")
        ∨ p = ("required", ref "#/$defs/stringArray") := by decide
  refine accepts_part_iff.mpr ⟨h.isSchema, fun p hp y hy => ?_⟩
  rcases hdescribed p hp (h.names p.1 y hy) with rfl | rfl
  · obtain ⟨name, hname, rfl⟩ := h.type y hy
    refine accepts_typeKeyword (accepts_definition (.head _) ?_)
    exact fun τ => accepts_simpleTypes hname
  · obtain ⟨names, hnames, rfl⟩ := h.required y hy
    refine accepts_definition (.tail _ (.head _)) (fun τ => ?_)
    exact accepts_stringArray hnames

theorem accepts_latest : Accepts true (n + 7) (origin .latest) latest x := by
  refine accepts_origin h.isSchema ?_ (h.get?_eq_none (by decide))
  simp only [vocabularies, List.Forall]
  refine ⟨?_, h.accepts_applicator, ?_, h.accepts_validation, ?_, ?_, ?_⟩
  all_goals exact accepts_part h.isSchema (h.get?_eq_none (by decide))

end Shaped

theorem shaped_typed (hname : name ∈ typeNames) : Shaped n (typed name) where
  isObject := rfl
  names other y hy := by
    have hmem := Assoc.mem_of_get? hy
    rw [(Prod.mk.inj (List.mem_singleton.mp hmem)).1]
    decide
  type y hy := ⟨name, hname, (Option.some.inj hy).symm⟩
  properties y hy := absurd hy (by simp [typed])
  required y hy := absurd hy (by simp [typed])
  additionalProperties y hy := absurd hy (by simp [typed])

theorem get?_record {y : Value} (h : (record properties).get? name = some y) :
    (name = "type" ∧ y = .str "object") ∨ (name = "properties" ∧ y = .object properties)
      ∨ (name = "required" ∧ y = .list ((keys properties).map .str))
      ∨ (name = "additionalProperties" ∧ y = .bool false) := by
  have hmem : (name, y) ∈ recordMembers properties := Assoc.mem_of_get? h
  simpa [recordMembers, keys, Function.comp_def] using hmem

theorem mem_recordNames {y : Value} (h : (record properties).get? name = some y) :
    name ∈ recordNames := by
  rcases get?_record h with ⟨rfl, -⟩ | ⟨rfl, -⟩ | ⟨rfl, -⟩ | ⟨rfl, -⟩ <;> decide

theorem shaped_record (hkeys : (keys properties).Nodup)
    (hproperties : ∀ m ∈ properties, Accepts true (n + 2) (origin .latest) latest m.2) :
    Shaped n (record properties) where
  isObject := rfl
  names _ _ := mem_recordNames
  type y hy := ⟨"object", by decide, by simpa using get?_record hy⟩
  properties y hy := ⟨properties, by simpa using get?_record hy, hproperties⟩
  required y hy := ⟨keys properties, hkeys, by simpa using get?_record hy⟩
  additionalProperties y hy := by
    obtain rfl : y = .bool false := by simpa using get?_record hy
    exact accepts_origin_bool false

end

/-! ## Stored records -/

/-- A schema that can be given to a member of a record: it is well formed both for the draft that it
names and for the latest one, it has no references, and it is not nested too deep. -/
structure MemberSchema (schema : Value) : Prop where
  admitted : ∃ draft, admitted schema = .ok draft
  latest : checkSchema .latest schema = .ok ()
  selfContained : selfContained schema = true
  nesting : stride * schema.nesting + 8 ≤ depthLimit

/-- An object with exactly the members that are described, each of which satisfies its schema. -/
def IsRecord (properties : List (String × Value)) (v : Value) : Prop :=
  ∃ members, v = .object members
    ∧ (∀ name, name ∈ Assoc.keys members ↔ name ∈ Assoc.keys properties)
    ∧ ∀ m ∈ properties, ∀ x, Assoc.get? m.1 members = some x → validate m.2 x = .ok none

theorem ofSchema_ofSchema (draft : Draft) (schema : Value) :
    Draft.ofSchema (Draft.ofSchema draft schema) schema = Draft.ofSchema draft schema := by
  unfold Draft.ofSchema
  cases schema.get? "$schema" with
  | none => rfl
  | some v =>
    cases v with
    | str address =>
      dsimp only
      cases Draft.ofUri? address <;> rfl
    | _ => rfl

/-- Inside a record a member is looked at as if its schema stood alone. -/
theorem accepts_member_iff {schema : Value} (h : MemberSchema schema) {σ : Scope}
    (hdraft : σ.draft = .latest) {n : Nat} (hn : schema.nesting < n) (x : Value) :
    Accepts false n σ schema x ↔ validate schema x = .ok none := by
  obtain ⟨draft, hadmitted⟩ := h.admitted
  have halone : findings false depthLimit (Scope.start draft schema) schema x
      = findings false n σ schema x := by
    -- the scope is another one, but the schema is read as of the same draft
    refine findings_selfContained h.selfContained false ?_ hn ?_ x
    · obtain rfl := draftOf_eq_ok (admitted_eq_ok_iff.mp hadmitted).1
      rw [hdraft]
      exact (ofSchema_ofSchema .latest schema).symm
    · have hnesting := h.nesting
      unfold stride at hnesting
      omega
  rw [validate_eq_ok_none_iff]
  constructor
  · intro haccepts
    exact ⟨draft, hadmitted, halone ▸ haccepts⟩
  · rintro ⟨draft', hadmitted', haccepts⟩
    cases hadmitted.symm.trans hadmitted'
    rw [Accepts, ← halone]
    exact haccepts

section

variable {properties : List (String × Value)} (hkeys : (Assoc.keys properties).Nodup)
  (hproperties : ∀ m ∈ properties, MemberSchema m.2)

include hkeys hproperties

theorem checkSchema_record : checkSchema .latest (record properties) = .ok () := by
  -- the metaschema needs some depth for the record before it comes to the members
  have hdepth : depthLimit = depthLimit - 7 + 7 := rfl
  rw [checkSchema_eq_ok_iff, hdepth]
  refine (shaped_record hkeys (fun m hm => ?_)).accepts_latest
  have halone : Accepts true depthLimit (origin .latest) latest m.2 :=
    checkSchema_eq_ok_iff.mp (hproperties m hm).latest
  have hnesting := (hproperties m hm).nesting
  have henough : 3 + stride * m.2.nesting ≤ depthLimit - 7 + 2 := by
    omega
  have hless : depthLimit - 7 + 2 ≤ depthLimit := by decide
  rw [Accepts, findings_latest true (henough.trans hless) henough]
  exact halone

theorem validate_record_iff (v : Value) :
    validate (record properties) v = .ok none ↔ IsRecord properties v := by
  have hdepth : depthLimit = depthLimit - 1 + 1 := rfl
  have hadmitted : admitted (record properties) = .ok .latest :=
    admitted_eq_ok_iff.mpr ⟨rfl, checkSchema_record hkeys hproperties⟩
  have hmember (m : String × Value) (hm : m ∈ properties) (x : Value) :
      Accepts false (depthLimit - 1) (Scope.start .latest (record properties)) m.2 x
        ↔ validate m.2 x = .ok none := by
    refine accepts_member_iff (hproperties m hm) rfl ?_ x
    have hnesting := (hproperties m hm).nesting
    unfold stride at hnesting
    omega
  calc validate (record properties) v = .ok none
    _ ↔ Accepts false depthLimit (Scope.start .latest (record properties)) (record properties) v := by
      rw [validate_eq_ok_none_iff, hadmitted]
      constructor
      · rintro ⟨_, ⟨⟩, haccepts⟩
        exact haccepts
      · exact fun haccepts => ⟨_, rfl, haccepts⟩
    _ ↔ IsRecord properties v := by
      rw [hdepth, accepts_record_iff]
      refine exists_congr (fun members => and_congr_right (fun _ => ?_))
      constructor
      · rintro ⟨hparts, hrequired, hothers⟩
        exact ⟨fun name => ⟨List.forall_mem_map.mpr hothers name,
          List.forall_mem_map.mpr hrequired name⟩,
          fun m hm x hx => (hmember m hm x).mp (hparts m hm x hx)⟩
      · rintro ⟨hnames, hparts⟩
        exact ⟨fun m hm x hx => (hmember m hm x).mpr (hparts m hm x hx),
          fun m hm => (hnames m.1).mpr (List.mem_map_of_mem hm),
          fun m hm => (hnames m.1).mp (List.mem_map_of_mem hm)⟩

end

theorem fails_eq_true_iff {schema v : Value} : fails schema v ↔ ¬ validate schema v = .ok none := by
  unfold fails
  cases validate schema v with
  | error fault => simp
  | ok reason => cases reason <;> simp

def addressMembers : List (String × Value) :=
  [("city", typed "string")]

def personMembers : List (String × Value) :=
  [("name", typed "string"), ("home", record addressMembers)]

theorem memberSchema_text : MemberSchema (typed "string") := by
  have hcheck : checkSchema .latest (typed "string") = .ok () := by
    have hdepth : depthLimit = depthLimit - 7 + 7 := rfl
    rw [checkSchema_eq_ok_iff, hdepth]
    exact (shaped_typed (by decide)).accepts_latest
  exact ⟨⟨_, admitted_eq_ok_iff.mpr ⟨rfl, hcheck⟩⟩, hcheck, by decide, by decide⟩

theorem memberSchema_address : MemberSchema (record addressMembers) := by
  have hcheck : checkSchema .latest (record addressMembers) = .ok () :=
    checkSchema_record (by decide) (List.forall_mem_singleton.mpr memberSchema_text)
  exact ⟨⟨_, admitted_eq_ok_iff.mpr ⟨rfl, hcheck⟩⟩, hcheck, by decide, by decide⟩

theorem validate_text (s : String) : validate (typed "string") (.str s) = .ok none := by
  have hdraft : (Scope.start .latest .null).draft = .latest := rfl
  have hnesting : (typed "string").nesting < 2 := by decide
  exact (accepts_member_iff memberSchema_text hdraft hnesting _).mp (accepts_typed rfl)

/-- A schema that asks of items what it asks of the whole. -/
def selfSimilar : Value :=
  .object [("items", .object [("$dynamicRef", .str "#")])]

theorem accepts_selfSimilar : Accepts true depthLimit (origin .latest) latest selfSimilar := by
  -- only the core describes a reference, and only the applicator describes items
  have hitems : Accepts true (depthLimit - 4) (origin .latest) latest
      (.object [("$dynamicRef", .str "#")]) := by
    refine @accepts_origin (depthLimit - 6) _ rfl ?_ (by decide)
    simp only [vocabularies, List.Forall]
    refine ⟨?_, ?_, ?_, ?_, ?_, ?_, ?_⟩
    · unfold Accepts
      decide +kernel
    all_goals exact accepts_part rfl (by decide)
  have hdescribed : ∀ p ∈ propertiesOf applicator,
      selfSimilar.get? p.1 = none ∨ p = ("items", whole) := by decide
  refine @accepts_origin (depthLimit - 2) _ rfl ?_ (by decide)
  simp only [vocabularies, List.Forall]
  refine ⟨?_, accepts_part_iff.mpr ⟨rfl, fun p hp y hy => ?_⟩, ?_, ?_, ?_, ?_, ?_⟩
  case refine_2 =>
    rcases hdescribed p hp with hnone | rfl
    · cases hnone.symm.trans hy
    · obtain rfl := Option.some.inj hy
      exact (@accepts_whole_iff (depthLimit - 4) _).mpr hitems
  all_goals exact accepts_part rfl (by decide)

end SheetIntake.Schema
