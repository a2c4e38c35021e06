import SheetIntake.Proofs.RecordReading
import SheetIntake.Proofs.RegistryFailures
import SheetIntake.Proofs.SummaryCounts
import SheetIntake.Worker.File

/-!
# Summaries of files

The summary of a report on a file is known in closed form (`FileReport.summary_document`). Of the file
it shows no more than the name and what follows from the content, and it shows the moment of the
validation in one place, so two validations of a file under one schema differ in nothing else
(`Upload.validate_alike`). `Worker.reportOn` is the report for an import name without the requests that
it takes.
-/

namespace SheetIntake

open Outcome (bind_eq_ok error_bind ok_bind)
open Value (distinct distinct_object_iff str)

namespace FileReport

/-- The members of a summary that tell how many rows there were. -/
def counts (total valid invalid errors : Nat) (fileName validatedAt : Value) : Value :=
  .object [("total_items", .int total), ("valid_items", .int valid), ("invalid_items", .int invalid),
    ("error_count", .int errors), ("file_name", fileName), ("validated_at", validatedAt)]

def status : FileReport → String
  | .noSchema _ | .unreadable _ => "error"
  | .noRows => "warning"
  | .checked rows _ _ _ => if rows.isValid then "success" else "warning"

def summary (r : FileReport) : Value :=
  match r with
  | .noSchema _ | .unreadable _ => .object [("status", .str r.status),
      ("summary", .str "No validation results available")]
  | .noRows => .object [("status", .str r.status),
      ("summary", .str "0 out of 0 items failed validation"), ("details", counts 0 0 0 0 .null .null)]
  | .checked rows file _ at_ => .object [("status", .str r.status),
      ("summary", .str (if rows.isValid then
        "All " ++ toString (rows.total : Int) ++ " items passed validation"
      else toString (rows.invalid : Int) ++ " out of " ++ toString (rows.total : Int) ++
        " items failed validation")),
      ("details", counts rows.total rows.valid rows.invalid rows.errors.length file.name (.str at_))]

theorem summary_document (r : FileReport) : Schema.summary r.document = .ok r.summary := by
  cases r with
  | noSchema name | unreadable reason | noRows => rfl
  | checked rows file name at_ => exact Schema.summary_of_report ..

theorem member_status_summary (r : FileReport) :
    r.summary.member "status" = .ok (.str r.status) := by
  cases r <;> rfl

theorem distinct_counts (total valid invalid errors : Nat) {fileName validatedAt : Value}
    (hname : fileName.distinct) (hat : validatedAt.distinct) :
    (counts total valid invalid errors fileName validatedAt).distinct := by
  have hnames : ["total_items", "valid_items", "invalid_items", "error_count", "file_name",
      "validated_at"].Nodup := by decide
  refine distinct_object_iff.mpr ⟨hnames, ?_⟩
  simp [distinct, hname, hat]

def withoutMoment : Value → Value
  | .object members => .object (members.map (fun m => (m.1, match m.2 with
    | .object details => .object (Assoc.erase "validated_at" details)
    | v => v)))
  | v => v

def untimed (r : FileReport) : Value :=
  withoutMoment r.summary

theorem member_status_untimed (r : FileReport) :
    r.untimed.member "status" = .ok (.str r.status) := by
  cases r <;> rfl

end FileReport

theorem Value.distinct_of_member {v w : Value} {name : String} (hv : v.distinct)
    (h : v.member name = .ok w) : w.distinct := by
  unfold Value.member at h
  split at h
  · split at h
    · next hget =>
      cases h
      exact (distinct_object_iff.mp hv).2 _ (Assoc.mem_of_get? hget)
    · cases h
  · cases h

/-! ## Reports on files -/

namespace Upload

variable {file other : Upload} {schema importName : Value} {workers limit : Int} {now later : String}

theorem distinct_summary_of_validate {report : FileReport} (hname : file.name.distinct)
    (h : file.validate schema importName workers limit now = .ok report) :
    report.summary.distinct := by
  have hshort : ["status", "summary"].Nodup := by decide
  have hlong : ["status", "summary", "details"].Nodup := by decide
  unfold validate at h
  split at h
  · cases h
    exact distinct_object_iff.mpr ⟨hshort, by simp [distinct]⟩
  split at h
  · cases h
    exact distinct_object_iff.mpr ⟨hshort, by simp [distinct]⟩
  · cases h
    have hcounts := @FileReport.distinct_counts 0 0 0 0 .null .null rfl rfl
    exact distinct_object_iff.mpr ⟨hlong, by simp [distinct, hcounts]⟩
  · obtain ⟨rows, -, hrows⟩ := bind_eq_ok.mp h
    cases hrows
    have hcounts := @FileReport.distinct_counts rows.total rows.valid rows.invalid
      rows.errors.length file.name (.str now) hname rfl
    exact distinct_object_iff.mpr ⟨hlong, by simp [distinct, hcounts]⟩

theorem rows_congr (hname : file.name = other.name) (hcontent : file.content = other.content) :
    file.rows = other.rows := by
  unfold rows
  rw [hname, hcontent]

/-- Of a file, only its name and its content show in the summary, and the moment in one place. -/
theorem validate_alike (hname : file.name = other.name) (hcontent : file.content = other.content) :
    (file.validate schema importName workers limit now).map FileReport.untimed =
      (other.validate schema importName workers limit later).map FileReport.untimed := by
  unfold validate
  rw [rows_congr hname hcontent]
  cases schema.truthy with
  | false => rfl
  | true =>
    cases other.rows with
    | error reason => rfl
    | ok rows =>
      cases rows with
      | nil => rfl
      | cons row rest =>
        dsimp only
        cases Schema.validateBatch (row :: rest) schema (min workers limit) with
        | error fault => rfl
        | ok report =>
          show Except.ok _ = Except.ok _
          unfold FileReport.untimed FileReport.summary
          dsimp only
          rw [hname]
          rfl

end Upload

namespace Worker

open Service

def reportOn (file : Upload) (importName : Value) (workers : Nat) (now : Moment)
    (registry : Registry.Store) : Except Fault FileReport := do
  let schema ← ((Registry.activeSchema importName).run Registry.servers registry).1
  file.validate schema importName workers workers now.text

variable {file other : Upload} {importName message : Value} {workers : Nat} {now later : Moment}
  {registry : Registry.Store} {report : FileReport}

theorem run_reportFile :
    (reportFile file importName workers workers now.text).run Registry.servers registry =
      (reportOn file importName workers now registry, registry) := by
  unfold reportFile reportOn
  rcases @Registry.ends_activeSchema importName registry with
    ⟨schema, r, hactive, rfl⟩ | ⟨fault, r, hactive, rfl⟩
  · rw [Job.run_bind_ok hactive, hactive]
    rfl
  · rw [Job.run_bind, hactive]
    rfl

theorem run_summarize : (summarize file importName workers now).run Registry.servers registry =
    ((reportOn file importName workers now registry).map FileReport.summary, registry) := by
  unfold summarize
  rw [Job.run_bind, run_reportFile]
  cases reportOn file importName workers now registry with
  | error fault => rfl
  | ok report =>
    dsimp only
    rw [report.summary_document]
    rfl

theorem reportOn_alike (hname : file.name = other.name) (hcontent : file.content = other.content) :
    (reportOn file importName workers now registry).map FileReport.untimed =
      (reportOn other importName workers later registry).map FileReport.untimed := by
  unfold reportOn
  cases ((Registry.activeSchema importName).run Registry.servers registry).1 with
  | error fault => rw [error_bind, error_bind]
  | ok schema =>
    exact Upload.validate_alike hname hcontent

theorem distinct_name_of_fileOf (hmessage : message.distinct) (h : fileOf message = .ok file) :
    file.name.distinct := by
  obtain ⟨shown, -, h⟩ := bind_eq_ok.mp h
  obtain ⟨bytes, -, h⟩ := bind_eq_ok.mp h
  obtain ⟨metadata, hmetadata, h⟩ := bind_eq_ok.mp h
  obtain ⟨name, hname, h⟩ := bind_eq_ok.mp h
  cases h
  exact Value.distinct_of_member (Value.distinct_of_member hmessage hmetadata) hname

theorem distinct_summary_of_reportOn (hname : file.name.distinct)
    (h : reportOn file importName workers now registry = .ok report) : report.summary.distinct := by
  obtain ⟨schema, -, hvalidate⟩ := bind_eq_ok.mp h
  exact Upload.distinct_summary_of_validate hname hvalidate

end Worker

end SheetIntake
