import SheetIntake.Proofs.FileSummaries

/-!
# Reports on files and on their rows

A report on a file under the active schema of an import name is meant to tell what a check of the
rows of the file under that schema tells. It does, unless one of the two is empty: an empty schema
that was saved counts as no schema, and a file without rows is not told to be valid.

* `tells_rows_iff` — which reports tell what a check of the rows tells, after any calls.
-/

namespace SheetIntake

/-! ## Schemas that are kept -/

namespace Registry

open Assoc

/-- A call that may change something: what it saves, if anything, can be copied. -/
def SchemaCall.copyable : SchemaCall → Bool
  | .save schema _ _ => (copied schema).isOk
  | .remove _ _ => true

section

variable {s : List Document × List Bool} {schema : Value}

theorem truthy_of_copyable (h : (copied schema).isOk) :
    schema.truthy ↔ schema ≠ .object [] ∧ schema ≠ .list [] := by
  cases schema with
  | object members => cases members <;> simp [Value.truthy]
  | list items => cases items <;> simp [Value.truthy]
  | _ => cases h

theorem ends_of_not_copyable {call : SchemaCall} (h : call.copyable = false) :
    Job.Ends wavering call.job s (fun _ t => t.1 = s.1) (fun _ t => t.1 = s.1) := by
  cases call with
  | remove name now => cases h.symm
  | save schema name now =>
    have hcopied : copied schema ≠ .ok schema := by
      intro hcopy
      rw [SchemaCall.copyable, hcopy] at h
      exact Bool.false_ne_true h.symm
    -- every way that changes something makes a copy first
    exact @ends_saveSchema _ _ _ serves_wavering s (.str name) schema now (· = s.1)
      (fun _ _ _ _ _ => rfl) (absurd · hcopied) (absurd · hcopied)

end

/-- What the registry keeps after some calls comes from those calls that can save anything. -/
theorem consistent_copyable (schedule : List Bool) (calls : List SchemaCall) :
    Consistent (calls.filter SchemaCall.copyable) (documentsAfter schedule calls) := by
  induction calls using List.reverseRecOn with
  | nil => exact ⟨List.nodup_nil, List.forall_mem_nil _⟩
  | append_singleton calls call ih =>
    rw [List.filter_append]
    cases hcall : call.copyable with
    | true =>
      rw [List.filter_singleton, hcall, cond_true]
      exact ih.concat
    | false =>
      rw [List.filter_singleton, hcall, cond_false, List.append_nil]
      have hsame : documentsAfter schedule (calls ++ [call]) = documentsAfter schedule calls := by
        rcases ends_of_not_copyable hcall with ⟨_, t, hrun, hsame⟩ | ⟨_, t, hrun, hsame⟩
        all_goals exact (congrArg (·.2.1) (afterCalls_concat hrun)).trans hsame
      rw [hsame]
      exact ih

theorem Consistent.find? {calls : List SchemaCall} {documents : List Document} {d : Document}
    {name : String} {active : Value} {releases : List Value} (h : Consistent calls documents)
    (hd : d ∈ documents) (hdescribes : Describes d name active releases) :
    documents.find? (accepts (named (.str name))) = some d := by
  have haccepts : accepts (named (.str name)) d := accepts_named.mpr hdescribes.name
  cases hfound : documents.find? (accepts (named (.str name))) with
  | none => exact absurd haccepts (List.find?_eq_none.mp hfound d hd)
  | some e =>
    have hname := accepts_named.mp (List.find?_some hfound)
    have heq := List.inj_on_of_nodup_map h.names (List.mem_of_find?_eq_some hfound) hd
      (hname.trans hdescribes.name.symm)
    rw [heq]

end Registry

/-! ## Results in a report -/

namespace FileReport

/-- The results in a report are those that a check of rows gave, perhaps with more members. -/
def Tells (r : FileReport) (rows : Schema.BatchReport) : Prop :=
  ∃ more, r.document.member "validation_results" = .ok (.object (rows.members ++ more))

/-- A report on a file tells what a check of rows tells, or both fail alike. -/
def Agrees (report : Except Fault FileReport) (rows : Except Fault Schema.BatchReport) : Prop :=
  (∃ r b, report = .ok r ∧ rows = .ok b ∧ r.Tells b)
    ∨ ∃ fault, report = .error fault ∧ rows = .error fault

theorem agrees_ok_iff {r : FileReport} {rows : Except Fault Schema.BatchReport} :
    Agrees (.ok r) rows ↔ ∃ b, rows = .ok b ∧ r.Tells b := by
  constructor
  · rintro (⟨r', b, hr, hb, htells⟩ | ⟨fault, hr, -⟩)
    · exact ⟨b, hb, Except.ok.inj hr ▸ htells⟩
    · cases hr.symm
  · rintro ⟨b, hb, htells⟩
    exact .inl ⟨r, b, rfl, hb, htells⟩

theorem not_tells_noSchema (importName : Value) (rows : Schema.BatchReport) :
    ¬ (FileReport.noSchema importName).Tells rows := by
  rintro ⟨more, hmember⟩
  exact Value.noConfusion (Except.ok.inj hmember)

theorem not_tells_noRows {rows : Schema.BatchReport} (h : rows.isValid) :
    ¬ FileReport.noRows.Tells rows := by
  rintro ⟨more, hmember⟩
  obtain ⟨hfirst, -⟩ := List.cons_eq_cons.mp (Value.object.inj (Except.ok.inj hmember))
  have hvalid : Value.bool false = .bool rows.isValid := (Prod.mk.inj hfirst).2
  exact Bool.false_ne_true ((Value.bool.inj hvalid).trans h)

theorem tells_checked (rows : Schema.BatchReport) (file : Upload) (importName : Value)
    (now : String) : (FileReport.checked rows file importName now).Tells rows :=
  ⟨_, rfl⟩

end FileReport

/-! ## Reports after any calls -/

open Registry FileReport

/-- The report on a file for an import name, after calls from an empty registry. -/
def reportAfter (schedule : List Bool) (calls : List SchemaCall) (file : Upload) (name : String)
    (workers limit : Int) (now : String) : Except Fault FileReport :=
  (Job.run servers (Worker.reportFile file (.str name) workers limit now)
    { documents := documentsAfter schedule calls }).1

variable {schedule : List Bool} {calls : List SchemaCall} {file : Upload} {name : String}
  {workers limit : Int} {now : String}

theorem reportAfter_eq : reportAfter schedule calls file name workers limit now = file.validate
        ((((documentsAfter schedule calls).find? (accepts (named (.str name)))).map
          (fun d => (Assoc.get? "active_schema" d).getD .null)).getD .null)
        (.str name) workers limit now := by
  unfold reportAfter Worker.reportFile activeSchema
  rw [Job.run_bind, Job.run_bind_ok (run_findFirst rfl _)]
  cases (documentsAfter schedule calls).find? (accepts (named (.str name))) <;> rfl

theorem reportAfter_of_none (h : documentsOf (documentsAfter schedule calls) name = []) :
    reportAfter schedule calls file name workers limit now = .ok (.noSchema (.str name)) := by
  have hnone : (documentsAfter schedule calls).find? (accepts (named (.str name))) = none :=
    List.find?_eq_none.mpr (List.filter_eq_nil_iff.mp h)
  rw [reportAfter_eq, hnone]
  rfl

section

variable {d : Document} {active : Value} {releases : List Value}
  (hd : d ∈ documentsAfter schedule calls) (hdescribes : Describes d name active releases)

include hd hdescribes

theorem reportAfter_of_describes : reportAfter schedule calls file name workers limit now =
      file.validate active (.str name) workers limit now := by
  rw [reportAfter_eq, (consistent_documentsAfter schedule calls).find? hd hdescribes]
  dsimp only [Option.map_some, Option.getD_some]
  rw [hdescribes.active, Option.getD_some]

/-- The active schema of an import name is an object or a list. -/
theorem copyable_of_describes : (copied active).isOk := by
  obtain ⟨other, active', releases', hother, hpassed⟩ :=
    (consistent_copyable schedule calls).schemas d hd
  obtain rfl := Option.some.inj (hother.active.symm.trans hdescribes.active)
  obtain ⟨now, hsaved⟩ := hpassed active' (.head _)
  exact (List.mem_filter.mp hsaved).2

end

theorem agrees_of_truthy {active : Value} {rows : List Value} (hrows : file.rows = .ok rows)
    (hactive : active.truthy) (hne : rows ≠ []) :
    Agrees (file.validate active (.str name) workers limit now)
      (Schema.validateBatch rows active (min workers limit)) := by
  obtain ⟨row, rest, rfl⟩ := List.exists_cons_of_ne_nil hne
  unfold Upload.validate
  rw [hactive, hrows]
  dsimp only
  cases hbatch : Schema.validateBatch (row :: rest) active (min workers limit) with
  | error fault => exact .inr ⟨fault, rfl, rfl⟩
  | ok b => exact .inl ⟨_, b, rfl, rfl, tells_checked b file (.str name) now⟩

theorem validate_of_no_rows {active : Value} (hrows : file.rows = .ok [])
    (hactive : active.truthy) :
    file.validate active (.str name) workers limit now = .ok .noRows := by
  unfold Upload.validate
  rw [hactive, hrows]
  rfl

/-- The report on a file that has been read tells what a check of its rows under the active schema
tells, unless the schema or the file is empty. An empty schema is reported as none, and a file
without rows as one that is not valid; the counts are those of the check. -/
theorem tells_rows_iff (schedule : List Bool) (calls : List SchemaCall) (name : String)
    {rows : List Value} (hrows : file.rows = .ok rows) (workers limit : Int) (now : String) :
    (documentsOf (documentsAfter schedule calls) name = [] →
        reportAfter schedule calls file name workers limit now = .ok (.noSchema (.str name)))
      ∧ ∀ d ∈ documentsAfter schedule calls, ∀ active releases, Describes d name active releases →
        (reportAfter schedule calls file name workers limit now = .ok (.noSchema (.str name)) ↔
            active = .object [] ∨ active = .list [])
          ∧ (Agrees (reportAfter schedule calls file name workers limit now)
              (Schema.validateBatch rows active (min workers limit)) ↔
            active ≠ .object [] ∧ active ≠ .list [] ∧ rows ≠ [])
          ∧ (active ≠ .object [] → active ≠ .list [] → rows = [] →
            reportAfter schedule calls file name workers limit now = .ok .noRows
              ∧ ∃ b, Schema.validateBatch rows active (min workers limit) = .ok b
                ∧ b.isValid = true ∧ FileReport.noRows.Tells { b with isValid := false }) := by
  refine ⟨reportAfter_of_none, fun d hd active releases hdescribes => ?_⟩
  have htruthy := truthy_of_copyable (copyable_of_describes hd hdescribes)
  rw [reportAfter_of_describes hd hdescribes]
  cases hactive : active.truthy with
  | false =>
    have hempty : ¬ (active ≠ .object [] ∧ active ≠ .list []) := by
      rw [← htruthy, hactive]
      exact Bool.false_ne_true
    have hreport : file.validate active (.str name) workers limit now =
        .ok (.noSchema (.str name)) := by
      unfold Upload.validate
      rw [hactive]
      rfl
    rw [hreport]
    refine ⟨iff_of_true rfl (by tauto), iff_of_false ?_ (by tauto), by tauto⟩
    intro hagrees
    obtain ⟨b, -, htells⟩ := agrees_ok_iff.mp hagrees
    exact not_tells_noSchema _ b htells
  | true =>
    obtain ⟨hobject, hlist⟩ := htruthy.mp hactive
    cases rows with
    | cons row rest =>
      have hagrees : Agrees (file.validate active (.str name) workers limit now) _ :=
        agrees_of_truthy hrows hactive (List.cons_ne_nil row rest)
      refine ⟨iff_of_false (fun hreport => ?_) (by tauto), iff_of_true hagrees ?_, ?_⟩
      · rw [hreport] at hagrees
        obtain ⟨b, -, htells⟩ := agrees_ok_iff.mp hagrees
        exact not_tells_noSchema _ b htells
      · exact ⟨hobject, hlist, List.cons_ne_nil row rest⟩
      · exact fun _ _ hnil => absurd hnil (List.cons_ne_nil row rest)
    | nil =>
      rw [validate_of_no_rows hrows hactive]
      refine ⟨iff_of_false (fun heq => ?_) (by tauto), iff_of_false ?_ (by tauto), ?_⟩
      · exact FileReport.noConfusion (Except.ok.inj heq)
      · intro hagrees
        obtain ⟨b, hb, htells⟩ := agrees_ok_iff.mp hagrees
        exact not_tells_noRows (Except.ok.inj hb ▸ rfl) htells
      · exact fun _ _ _ => ⟨rfl, _, rfl, rfl, _, rfl⟩

def namesFile (text : String) : Upload :=
  { name := .str "people.csv", content := .ok (.bytes text.toUTF8.data.toList) }

def anyObject : Value :=
  .object [("type", .str "object")]

def savedOnce (schema : Value) : List SchemaCall :=
  [.save schema "people" "now"]

/-- The row of a file is told as a check under the active schema tells it. -/
theorem one_row_is_told :
    ∃ d ∈ documentsAfter [] (savedOnce anyObject), Describes d "people" anyObject []
      ∧ (namesFile "name\nann\n").rows = .ok [.object [("name", .str "ann")]]
      ∧ Agrees (reportAfter [] (savedOnce anyObject) (namesFile "name\nann\n") "people" 4 8 "now")
        (Schema.validateBatch [.object [("name", .str "ann")]] anyObject 4) := by
  have hrows : (namesFile "name\nann\n").rows = .ok [.object [("name", .str "ann")]] := by
    decide +kernel
  have hd : firstDocument (.str "people") anyObject "now" ∈
      documentsAfter [] (savedOnce anyObject) := List.mem_singleton.mpr rfl
  have hdescribes := describes_firstDocument "people" anyObject "now"
  obtain ⟨-, hactive⟩ := tells_rows_iff [] (savedOnce anyObject) "people" hrows 4 8 "now"
  obtain ⟨-, hagrees, -⟩ := hactive _ hd _ _ hdescribes
  have hfilled : anyObject ≠ .object [] ∧ anyObject ≠ .list [] := by decide
  exact ⟨_, hd, hdescribes, hrows, hagrees.mpr ⟨hfilled.1, hfilled.2, List.cons_ne_nil _ _⟩⟩

/-- An empty schema that was saved is reported as none, and a file without rows is not told as a
check of no rows tells it. -/
theorem empty_ones_are_misreported :
    documentsAfter [] (savedOnce (.object [])) =
        [firstDocument (.str "people") (.object []) "now"]
      ∧ reportAfter [] (savedOnce (.object [])) (namesFile "name\nann\n") "people" 4 8 "now" =
        .ok (.noSchema (.str "people"))
      ∧ (namesFile "name\n").rows = .ok []
      ∧ ¬ Agrees (reportAfter [] (savedOnce anyObject) (namesFile "name\n") "people" 4 8 "now")
        (Schema.validateBatch [] anyObject 4) := by
  have hrows : (namesFile "name\n").rows = .ok [] := by decide +kernel
  have hd : firstDocument (.str "people") anyObject "now" ∈
      documentsAfter [] (savedOnce anyObject) := List.mem_singleton.mpr rfl
  refine ⟨rfl, rfl, hrows, fun hagrees => ?_⟩
  rw [reportAfter_of_describes hd (describes_firstDocument "people" anyObject "now"),
    validate_of_no_rows hrows rfl] at hagrees
  obtain ⟨b, hb, htells⟩ := agrees_ok_iff.mp hagrees
  exact not_tells_noRows (Except.ok.inj hb ▸ rfl) htells

end SheetIntake
