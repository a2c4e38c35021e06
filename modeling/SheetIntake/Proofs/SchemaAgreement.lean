import SheetIntake.Proofs.SchemaChecks
import SheetIntake.Proofs.SchemaHistory

/-!
# Alike schemas

Whether a schema changes is asked with the equality of values, under which `1`, `1.0` and `true` are
the same. For numbers that is no loss: schemas that differ in how numbers are written, and in the
order of members, accept the same values. A truth value in the place of a number makes another
schema, and a save drops it.

* `interchangeable_of_alike` — alike schemas are interchangeable if they keep truth values apart
  from numbers and write divisors in the same way.
-/

namespace SheetIntake.Schema

open Value
open Registry (saveSchema)

/-! ## Validation -/

/-- No part of the check of a value fails, also none that a finding before it would hide. -/
def Untroubled (schema value : Value) : Prop :=
  (strictFindings false depthLimit (Scope.start (Draft.ofSchema .latest schema) schema) schema
    value).verdict.isSome = true

instance (schema value : Value) : Decidable (Untroubled schema value) :=
  inferInstanceAs (Decidable (_ = true))

/-- Schemas between which no check and no value decides. In draft four it has to be known that both
are well formed. The first schema is looked at more closely: its anchors are apart, and no part of
the check of a value fails. -/
structure Interchangeable (a b : Value) : Prop where
  wellFormed : checkSchema .seven a = .ok () ↔ checkSchema .seven b = .ok ()
  admitted (draft : Draft) : draft ≠ .four → (admitted a = .ok draft ↔ admitted b = .ok draft)
  validate (v : Value) : (Schema.admitted a = .ok .four ↔ Schema.admitted b = .ok .four) →
    AnchorsApart a → Untroubled a v → (validate a v = .ok none ↔ validate b v = .ok none)

theorem best?_eq_none_iff {found : List Finding} : best? found = none ↔ found = [] := by
  cases found <;> simp [best?, mostRelevant?]

theorem validateAdmitted_eq_ok_none_iff {draft : Draft} {schema v : Value} :
    validateAdmitted draft schema v = .ok none ↔
      (findings false depthLimit (Scope.start draft schema) schema v).verdict = some true := by
  unfold validateAdmitted
  generalize findings false depthLimit (Scope.start draft schema) schema v = fs
  obtain ⟨found, _ | fault⟩ := fs
  · simp [Findings.complete, Findings.verdict, pure, Except.pure, best?_eq_none_iff]
  · exact iff_of_false Outcome.error_ne_ok (Option.some_ne_none true).symm

theorem validate_eq_ok_none_iff {schema v : Value} :
    validate schema v = .ok none ↔ ∃ draft, admitted schema = .ok draft
      ∧ (findings false depthLimit (Scope.start draft schema) schema v).verdict = some true := by
  unfold validate
  rw [Outcome.bind_eq_ok]
  simp only [validateAdmitted_eq_ok_none_iff]

theorem validate_akin {a b v : Value} (h : Akin a b)
    (hfour : admitted a = .ok .four ↔ admitted b = .ok .four)
    (hapart : AnchorsApart a) (hsure : Untroubled a v) :
    validate a v = .ok none ↔ validate b v = .ok none := by
  have hadmitted (draft : Draft) : admitted a = .ok draft ↔ admitted b = .ok draft := by
    by_cases hdraft : draft = .four
    · rw [hdraft]
      exact hfour
    · exact admitted_akin h hdraft
  obtain ⟨r, hr⟩ := Option.isSome_iff_exists.mp hsure
  rw [validate_eq_ok_none_iff, validate_eq_ok_none_iff]
  refine exists_congr fun draft => ?_
  rw [hadmitted]
  refine and_congr_right fun hdraft => ?_
  obtain rfl := draftOf_eq_ok (admitted_eq_ok_iff.mp ((hadmitted draft).mpr hdraft)).1
  -- the strict verdict under `a` is the verdict under `a` and under `b`
  have hself := foretells_findings false depthLimit v (Aligned.start (.inl rfl) _) (.inl rfl) r hr
  have hother := foretells_findings false depthLimit v (Aligned.start (.inr ⟨h, hapart⟩) _)
    (.inr ⟨h, hapart⟩) r hr
  rw [hself, hother]

theorem interchangeable_of_alike {a b : Value} (halike : a.alike b)
    (hkinds : a.keepsKinds b) (ha : a.distinct) (hb : b.distinct) : Interchangeable a b :=
  have h := akin_of_alike halike hkinds ha hb
  { wellFormed := checkSchema_akin (by decide) h
    admitted := fun _ hdraft => admitted_akin h hdraft
    validate := fun _ hfour hapart hsure => validate_akin h hfour hapart hsure }

-- Under `not` a finding hides the failure after it, so that the order of two keywords counts.
example :
    let verdict (members : List (String × Value)) : Option Bool :=
      let schema := Value.object [("not", .object members)]
      (findings false depthLimit (.start .latest schema) schema (.int 1)).verdict
    verdict [("type", .str "string"), ("$ref", .str "#none")] = some true
      ∧ verdict [("$ref", .str "#none"), ("type", .str "string")] = none := by
  decide

-- An anchor that two schemas have names the first of them.
example :
    let named (type : String) : Value := .object [("$anchor", .str "x"), ("type", .str type)]
    let verdict (definitions : List (String × Value)) : Option Bool :=
      let schema := Value.object [("$defs", .object definitions), ("$ref", .str "#x")]
      (findings false depthLimit (.start .latest schema) schema (.int 1)).verdict
    verdict [("a", named "integer"), ("b", named "string")] = some true
      ∧ verdict [("b", named "string"), ("a", named "integer")] = some false := by
  decide

end SheetIntake.Schema

namespace SheetIntake.Registry

open Value

/-! ## Saves that change nothing -/

theorem reachable_of_servers {request : Request} {s t : Store} {answer : protocol.Answer request}
    (h : servers request s = (.ok answer, t)) : s.reachable := by
  unfold servers at h
  split at h
  · assumption
  · cases h

/-- A save answers null if the registry can be reached and its active schema is alike. Then it
leaves the registry as it is. -/
theorem run_saveSchema_null_iff {s t : Store} {schema : Value} {name now : String} :
    Job.run servers (saveSchema schema (.str name) now) s = (.ok .null, t) ↔ s.reachable ∧ t = s
        ∧ ∃ active, s.activeOf? name = some active ∧ active.alike schema := by
  unfold saveSchema
  constructor
  · intro h
    obtain ⟨found, s₁, hfound, h⟩ := Job.run_bind_eq_ok.mp h
    have hanswer : servers (.findFirst (named (.str name))) s = (.ok found, s₁) := hfound
    have hreachable := reachable_of_servers hanswer
    obtain ⟨hfind, rfl⟩ := Prod.mk.inj ((run_findFirst hreachable _).symm.trans hfound)
    obtain ⟨total, s₂, htotal, h⟩ := Job.run_bind_eq_ok.mp h
    cases (run_count_all hreachable).symm.trans htotal
    split at h
    · obtain ⟨active, hactive, h⟩ := Job.run_ofExcept_bind_eq_ok.mp h
      split at h
      · next halike =>
        cases h
        refine ⟨hreachable, rfl, active, ?_, halike⟩
        rw [Store.activeOf?, Store.documentOf?, Except.ok.inj hfind, Option.bind_some]
        unfold Value.member at hactive
        dsimp only at hactive
        split at hactive
        · next hget => rw [hget, Except.ok.inj hactive]
        · cases hactive
      · -- an update is answered with a status
        obtain ⟨copy, -, h⟩ := Job.run_ofExcept_bind_eq_ok.mp h
        obtain ⟨result, u, -, h⟩ := Job.run_bind_eq_ok.mp h
        cases Except.ok.inj (Prod.mk.inj h).1
    · -- and so is an insertion
      obtain ⟨copy, -, h⟩ := Job.run_ofExcept_bind_eq_ok.mp h
      obtain ⟨-, u, -, h⟩ := Job.run_bind_eq_ok.mp h
      cases Except.ok.inj (Prod.mk.inj h).1
  · rintro ⟨hreachable, rfl, active, hactive, halike⟩
    obtain ⟨d, hd, hactive⟩ := Option.bind_eq_some_iff.mp hactive
    have hmem : d ∈ t.documents := List.mem_of_find?_eq_some hd
    have hmember : (Value.object d).member "active_schema" = .ok active := by
      rw [Value.member, hactive]
    rw [Job.run_bind_ok (run_findFirst hreachable _), Job.run_bind_ok (run_count_all hreachable),
      show t.documents.find? (accepts (named (.str name))) = some d from hd,
      decide_eq_false (List.length_pos_of_mem hmem).ne']
    dsimp only
    rw [hmember, Job.run_bind_ok (Job.run_ofExcept _ _), if_pos halike]
    rfl

/-- Alike schemas that keep truth values apart from numbers, and write divisors in the same way, are
interchangeable. So a save that answers that nothing changes loses nothing, if the schema that it
drops does so. -/
theorem alike_schemas_interchangeable (schema : Value) (hschema : schema.distinct = true) :
    (∀ a : Value, a.alike schema = true → a.keepsKinds schema = true → a.distinct = true →
        Schema.Interchangeable a schema)
      ∧ ∀ (s t : Store) (name now : String),
        Job.run servers (saveSchema schema (.str name) now) s = (.ok .null, t) →
          t = s ∧ ∃ active, s.activeOf? name = some active ∧ active.alike schema = true
            ∧ (active.keepsKinds schema = true → active.distinct = true →
              Schema.Interchangeable active schema) := by
  have hagrees (a : Value) (halike : a.alike schema = true) (hkinds : a.keepsKinds schema = true)
      (ha : a.distinct = true) : Schema.Interchangeable a schema :=
    Schema.interchangeable_of_alike halike hkinds ha hschema
  refine ⟨hagrees, fun s t name now hrun => ?_⟩
  obtain ⟨-, hsame, active, hactive, halike⟩ := run_saveSchema_null_iff.mp hrun
  exact ⟨hsame, active, hactive, halike, hagrees active halike⟩

def holding (schema : Value) : Store :=
  { documents := [firstDocument (.str "people") schema "once"], reachable := true }

def people : Value :=
  .object [("type", .str "object"), ("properties",
    .object [("age", .object [("type", .str "integer"), ("minimum", .int 0)])])]

def peopleAgain : Value :=
  .object [("properties", .object [("age", .object [("minimum", .float (.zero true)),
    ("type", .str "integer")])]), ("type", .str "object")]

theorem reordered_schema_changes_nothing :
    Job.run servers (saveSchema peopleAgain (.str "people") "later") (holding people) =
        (.ok .null, holding people)
      ∧ (Schema.validate people (.object [("age", .int (-1))]) = .ok none ↔
        Schema.validate peopleAgain (.object [("age", .int (-1))]) = .ok none) := by
  have hrun : Job.run servers (saveSchema peopleAgain (.str "people") "later") (holding people) =
      (.ok .null, holding people) :=
    run_saveSchema_null_iff.mpr ⟨rfl, rfl, people, rfl, by decide +kernel⟩
  refine ⟨hrun, ?_⟩
  obtain ⟨-, active, hactive, -, hagrees⟩ :=
    (alike_schemas_interchangeable peopleAgain (by decide)).2 _ _ _ _ hrun
  obtain rfl : people = active := Option.some.inj hactive
  have hfour {a : Value} (ha : Schema.draftOf a = .ok .latest) : Schema.admitted a ≠ .ok .four :=
    fun h => nomatch ha.symm.trans (Schema.admitted_eq_ok_iff.mp h).1
  refine (hagrees (by decide) (by decide)).validate _
    (iff_of_false (hfour rfl) (hfour rfl)) (fun draft name _ _ hu => ?_) (by decide)
  exact absurd hu (Schema.not_anchored (by cases draft <;> rfl))

/-- One value only, in draft seven. -/
def only (v : Value) : Value :=
  .object [("$schema", .str "http://json-schema.org/draft-07/schema#"), ("const", v)]

/-- The schema that accepts `true` is alike to the one that accepts `1`, and so it is dropped. -/
theorem truth_value_is_dropped :
    Job.run servers (saveSchema (only (.bool true)) (.str "people") "later")
        (holding (only (.int 1))) = (.ok .null, holding (only (.int 1)))
      ∧ (only (.int 1)).alike (only (.bool true)) = true
      ∧ Schema.validate (only (.int 1)) (.bool true) ≠ .ok none
      ∧ Schema.validate (only (.bool true)) (.bool true) = .ok none := by
  have halike : (only (.int 1)).alike (only (.bool true)) = true := by decide
  have hrefused : (Schema.findings false Schema.depthLimit (.start .seven (only (.int 1)))
      (only (.int 1)) (.bool true)).verdict = some false := by
    decide
  refine ⟨run_saveSchema_null_iff.mpr ⟨rfl, rfl, only (.int 1), rfl, halike⟩, halike,
    fun h => ?_, Schema.validate_eq_ok_none_iff.mpr ⟨.seven, Schema.admitted_eq_ok_iff.mpr
      ⟨rfl, Schema.checkSchema_eq_ok_iff.mpr ?_⟩, ?_⟩⟩
  · obtain ⟨draft, hadmitted, haccepted⟩ := Schema.validate_eq_ok_none_iff.mp h
    obtain rfl := Except.ok.inj (Schema.admitted_eq_ok_iff.mp hadmitted).1
    exact nomatch hrefused.symm.trans haccepted
  · decide
  · decide

end SheetIntake.Registry
