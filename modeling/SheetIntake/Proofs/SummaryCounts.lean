import SheetIntake.Proofs.Batches
import SheetIntake.Schema.Summary

/-!
# Counts in a summary

A summary takes its counts from a report. It counts the errors that the report lists, and a report
lists fifty of them at most, so with more failing items the two counts part.

* `summary_of_report` — the summary of a report in closed form.
* `error_count_complete_iff` — which counts agree, and when the errors are counted in full.
* `errors_beyond_limit_uncounted` — one failing item more than a report lists.
-/

namespace SheetIntake.Schema

/-- A report as it is handed on: what became of the validation, and the report with what else is
known of the file. -/
def handedOn (success error : Value) (r : BatchReport) (more : List (String × Value)) : Value :=
  .object [("success", success), ("error", error),
    ("validation_results", .object (r.members ++ more))]

/-- The summary that a report should have. -/
def summaryOf (r : BatchReport) (more : List (String × Value)) : Value :=
  .object [("status", .str (if r.isValid then "success" else "warning")),
    ("summary", .str (if r.isValid then
      "All " ++ toString (r.total : Int) ++ " items passed validation"
    else toString (r.invalid : Int) ++ " out of " ++ toString (r.total : Int) ++
      " items failed validation")),
    ("details", .object [("total_items", .int r.total), ("valid_items", .int r.valid),
      ("invalid_items", .int r.invalid), ("error_count", .int r.errors.length),
      ("file_name", (Assoc.get? "file_name" more).getD .null),
      ("validated_at", (Assoc.get? "validated_at" more).getD .null)])]

theorem summary_of_report (success error : Value) (r : BatchReport)
    (more : List (String × Value)) :
    summary (handedOn success error r more) = .ok (summaryOf r more) := by
  obtain ⟨isValid, total, valid, invalid, errors⟩ := r
  have hcount : (errors.map Value.str).length = errors.length := List.length_map _
  unfold summaryOf
  rw [← hcount]
  cases isValid with
  | true | false => rfl

/-- A number among the details of a summary. -/
def detail (summary : Value) (name : String) : Except Fault Value := do
  let details ← summary.member "details"
  details.member name

/-- What a summary tells: its status, and how many items there were, how many of them passed, how
many failed, and how many errors there were. -/
structure Tells (summary : Value) (status : String) (total valid invalid errors : Nat) : Prop where
  status : summary.member "status" = .ok (.str status)
  total : detail summary "total_items" = .ok (.int total)
  valid : detail summary "valid_items" = .ok (.int valid)
  invalid : detail summary "invalid_items" = .ok (.int invalid)
  errors : detail summary "error_count" = .ok (.int errors)

theorem tells_batchReport (schema : Value) (size : Nat) (items : List Value)
    (more : List (String × Value)) :
    Tells (summaryOf (batchReport schema size items) more)
      (if items.countP (fails schema) = 0 then "success" else "warning") items.length
      (items.length - items.countP (fails schema)) (items.countP (fails schema))
      (min 50 (items.countP (fails schema))) := by
  have hstatus : (batchReport schema size items).isValid =
      decide (items.countP (fails schema) = 0) := by
    rw [← length_chunkErrors]
    cases h : chunkErrors schema items <;> simp [batchReport, h]
  have herrors := (accurate_batchReport schema size items).errorCount
  refine ⟨?_, rfl, rfl, rfl, ?_⟩
  · show Except.ok (Value.str (if (batchReport schema size items).isValid then _ else _)) = _
    rw [hstatus]
    simp only [decide_eq_true_eq]
  · show Except.ok (Value.int (batchReport schema size items).errors.length) = _
    rw [herrors]
    rfl

/-- The counts of a summary agree with one another and with the items, and success is told when no
item fails. The errors are counted in full exactly when no more than fifty items fail. -/
theorem error_count_complete_iff (schema : Value) (items : List Value) {workers : Int}
    (hworkers : workers ≠ 0) (success error : Value) (more : List (String × Value)) :
    ∃ r told status total valid invalid errors, validateBatch items schema workers = .ok r
      ∧ summary (handedOn success error r more) = .ok told
      ∧ Tells told status total valid invalid errors
      ∧ (status = "success" ↔ invalid = 0) ∧ valid + invalid = total ∧ total = items.length
      ∧ invalid = items.countP (fails schema) ∧ errors = min 50 invalid
      ∧ (errors = invalid ↔ invalid ≤ 50) := by
  refine ⟨_, _, _, _, _, _, _, validateBatch_eq schema items hworkers, summary_of_report ..,
    tells_batchReport .., ?_, Nat.sub_add_cancel List.countP_le_length, rfl, rfl, rfl, by omega⟩
  split <;> simp_all

/-- Three items of which two fail, for a file that is named. -/
theorem error_count_of_mixedItems :
    ∃ r told status total valid invalid errors, validateBatch mixedItems wholeNumbers 2 = .ok r
      ∧ summary (handedOn (.bool true) .null r [("file_name", .str "a.csv")]) = .ok told
      ∧ Tells told status total valid invalid errors ∧ status ≠ "success" ∧ total = 3
      ∧ errors = 2 := by
  obtain ⟨r, told, status, total, valid, invalid, errors, hr, hsummary, htells, hstatus, -, htotal,
    hinvalid, herrors, -⟩ := error_count_complete_iff wholeNumbers mixedItems
      (show (2 : Int) ≠ 0 by decide) (.bool true) .null [("file_name", .str "a.csv")]
  rw [← length_chunkErrors, chunkErrors_mixedItems] at hinvalid
  subst hinvalid
  exact ⟨r, told, status, total, valid, _, errors, hr, hsummary, htells,
    fun h => absurd (hstatus.mp h) (by decide), htotal, herrors⟩

theorem fails_null : fails wholeNumbers .null = true := by
  have herror : (chunkErrors wholeNumbers mixedItems)[1]? =
      some { position := 2, reason := "None is not of type 'integer'" } := by
    rw [chunkErrors_mixedItems]
    rfl
  obtain ⟨item, hitem, hfails, -⟩ := getElem?_chunkErrors herror
  cases hitem
  exact hfails

/-- Of fifty-one items all fail, and fifty errors are counted. -/
theorem errors_beyond_limit_uncounted :
    ∃ r told, validateBatch (List.replicate 51 .null) wholeNumbers 4 = .ok r
      ∧ summary (handedOn (.bool true) .null r []) = .ok told
      ∧ Tells told "warning" 51 0 51 50 := by
  have hall : (List.replicate 51 Value.null).countP (fails wholeNumbers) = 51 := by
    rw [List.countP_replicate, if_pos fails_null]
  refine ⟨_, _, validateBatch_eq _ _ (by decide), summary_of_report .., ?_⟩
  have htells := tells_batchReport wholeNumbers (chunkSize 51 4) (List.replicate 51 .null) []
  rw [hall] at htells
  exact htells

end SheetIntake.Schema
