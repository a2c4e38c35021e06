import SheetIntake.Proofs.TaskRecords
import SheetIntake.Sheet.Formulas

/-!
# Columns with one header

The data of a sheet are looked up by header. A column whose header is alike to an earlier one takes
the place of the earlier column's data, and the formula service is asked about one of the two only.

* `columns_kept_iff` — no column of a file is lost exactly when no two headers of a sheet are alike.
-/

namespace SheetIntake.SheetContents

/-! ## Entries by header -/

theorem putAlike_cases (key : Value) (cells : List NamedCell) (m : List (Value × List NamedCell)) :
    ((∀ e ∈ m, e.1.alike key = false) ∧ putAlike key cells m = m ++ [(key, cells)])
      ∨ ((∃ e ∈ m, e.1.alike key) ∧ (putAlike key cells m).length = m.length) := by
  induction m with
  | nil => exact .inl ⟨List.forall_mem_nil _, rfl⟩
  | cons e rest ih =>
    rw [putAlike]
    split
    · next he => exact .inr ⟨⟨e, .head _, he⟩, rfl⟩
    · next he =>
      rcases ih with ⟨hrest, hput⟩ | ⟨⟨d, hd, hde⟩, hlength⟩
      · rw [hput]
        exact .inl ⟨List.forall_mem_cons.mpr ⟨Bool.eq_false_iff.mpr he, hrest⟩, rfl⟩
      · exact .inr ⟨⟨d, .tail e hd, hde⟩, congrArg Nat.succ hlength⟩

theorem mem_putAlike {key : Value} {cells : List NamedCell} {m : List (Value × List NamedCell)}
    {e : Value × List NamedCell} (h : e ∈ putAlike key cells m) : e.2 = cells ∨ e ∈ m := by
  induction m with
  | nil => exact .inl (congrArg Prod.snd (List.mem_singleton.mp h))
  | cons d rest ih =>
    rw [putAlike] at h
    split at h
    · exact (List.mem_cons.mp h).imp (congrArg Prod.snd) (.tail d)
    · rcases List.mem_cons.mp h with rfl | h
      · exact .inr (.head _)
      · exact (ih h).imp_right (.tail d)

/-- The data of a column under its header. -/
def entry (column : String × List NamedCell) : Value × List NamedCell :=
  (header column.2, column.2.drop 1)

def second? (column : String × List NamedCell) : Option (Value × NamedCell) :=
  column.2[1]?.map fun cell => (header column.2, shownCell cell)

/-- No column has a header that is alike to an earlier one. -/
def Apart (columns : List (String × List NamedCell)) : Prop :=
  columns.Pairwise fun a b => (header a.2).alike (header b.2) = false

/-- Columns whose headers are apart are all kept, and of others some are lost. -/
theorem data_cases (title : String) (columns : List (String × List NamedCell)) :
    (Apart columns ∧ data ⟨title, columns⟩ = columns.map entry)
      ∨ (¬ Apart columns ∧ (data ⟨title, columns⟩).length < columns.length) := by
  induction columns using List.reverseRecOn with
  | nil => exact .inl ⟨.nil, rfl⟩
  | append_singleton columns last ih =>
    have hdata : data ⟨title, columns ++ [last]⟩ =
        putAlike (header last.2) (last.2.drop 1) (data ⟨title, columns⟩) := List.foldl_concat ..
    have hapart : Apart (columns ++ [last]) ↔ Apart columns
        ∧ ∀ column ∈ columns, (header column.2).alike (header last.2) = false := by
      simp [Apart, List.pairwise_append]
    have hcases := putAlike_cases (header last.2) (last.2.drop 1) (data ⟨title, columns⟩)
    rw [hdata, hapart, List.length_append, List.length_singleton]
    rcases ih with ⟨hcolumns, hkept⟩ | ⟨hnot, hless⟩
    · rw [hkept] at hcases ⊢
      rcases hcases with ⟨hnew, hput⟩ | ⟨⟨_, he, halike⟩, hlength⟩
      · refine .inl ⟨⟨hcolumns, fun column hcolumn => hnew _ (List.mem_map_of_mem hcolumn)⟩, ?_⟩
        rw [hput, List.map_append]
        rfl
      · obtain ⟨column, hcolumn, rfl⟩ := List.mem_map.mp he
        refine .inr ⟨fun h => Bool.false_ne_true ((h.2 column hcolumn).symm.trans halike), ?_⟩
        rw [hlength, List.length_map]
        exact Nat.lt_succ_self _
    · refine .inr ⟨fun h => hnot h.1, ?_⟩
      rcases hcases with ⟨-, hput⟩ | ⟨-, hlength⟩
      · rw [hput, List.length_append]
        exact Nat.succ_lt_succ hless
      · omega

variable {c : SheetContents}

theorem shownCells_of_data (h : c.data = c.columns.map entry) :
    shownCells c = c.columns.filterMap second? := by
  unfold shownCells
  rw [h, List.filterMap_map]
  refine List.filterMap_congr fun column _ => ?_
  obtain ⟨name, cells⟩ := column
  rcases cells with _ | ⟨first, _ | ⟨cell, rest⟩⟩ <;> rfl

theorem shownCells_of_short (h : ∀ column ∈ c.columns, column.2.length < 2) :
    shownCells c = c.columns.filterMap second? := by
  have hnone : c.columns.filterMap second? = [] :=
    List.filterMap_eq_nil_iff.mpr fun column hcolumn => by
      simp [second?, Nat.le_of_lt_succ (h column hcolumn)]
  have hempty : ∀ e ∈ c.data, e.2 = [] := by
    refine List.foldlRecOn (motive := fun m => ∀ e ∈ m, Prod.snd e = []) c.columns _
      (List.forall_mem_nil _) fun m hm column hcolumn e he => ?_
    rcases mem_putAlike he with hcells | hmem
    · rw [hcells, List.drop_eq_nil_of_le (Nat.le_of_lt_succ (h column hcolumn))]
    · exact hm e hmem
  rw [hnone]
  refine List.filterMap_eq_nil_iff.mpr fun e he => ?_
  rw [hempty e he]

/-! ## Files -/

theorem length_column {s : Sheet} (h : ofSheet s = .ok c) :
    ∀ column ∈ c.columns, column.2.length = s.height := by
  obtain ⟨columns, hcolumns, hc⟩ := Outcome.bind_eq_ok.mp h
  cases hc
  intro column hmem
  obtain ⟨j, -, hj⟩ := (Outcome.mem_of_mapM_eq_ok hcolumns).mp hmem
  unfold namedColumn at hj
  split at hj
  · exact absurd hj Outcome.error_ne_ok
  · cases hj
    simp [Sheet.column]

variable {filename : String} {content : FileContent} {sheets : List SheetContents}

theorem exists_ofSheet (h : readSpreadsheet filename content = .ok sheets) (hc : c ∈ sheets) :
    ∃ s, ofSheet s = .ok c := by
  obtain ⟨found, -, h⟩ := Outcome.bind_eq_ok.mp h
  obtain ⟨contents, hcontents, h⟩ := Outcome.bind_eq_ok.mp h
  cases h
  have hmem := List.foldlRecOn (motive := fun m => ∀ e ∈ m, e.2 ∈ contents) contents
    (fun m d => Assoc.put d.title d m) (List.forall_mem_nil _) fun m hm d hd e he =>
      (Assoc.mem_put he).elim (hm e) fun heq => heq ▸ hd
  obtain ⟨e, he, rfl⟩ := List.mem_map.mp hc
  obtain ⟨s, -, hs⟩ := (Outcome.mem_of_mapM_eq_ok hcontents).mp (hmem e he)
  exact ⟨s, hs⟩

/-- In every sheet of every file the data hold each column without its first cell under its header,
and as many columns as the sheet has, exactly when no header is alike to an earlier one. The formula
service is shown the second cell of each column in that case, and where there is no second cell. -/
theorem columns_kept_iff (h : readSpreadsheet filename content = .ok sheets) (hc : c ∈ sheets) :
    (c.data = c.columns.map entry ↔ Apart c.columns)
      ∧ (c.data.length = c.columns.length ↔ Apart c.columns)
      ∧ (shownCells c = c.columns.filterMap second? ↔
        Apart c.columns ∨ ∀ column ∈ c.columns, column.2.length < 2) := by
  obtain ⟨s, hs⟩ := exists_ofSheet h hc
  rcases data_cases c.title c.columns with ⟨hapart, hdata⟩ | ⟨hnot, hless⟩
  · refine ⟨iff_of_true hdata hapart, iff_of_true ?_ hapart,
      iff_of_true (shownCells_of_data hdata) (.inl hapart)⟩
    rw [show c.data = _ from hdata, List.length_map]
  · refine ⟨iff_of_false (fun heq => ?_) hnot, iff_of_false (Nat.ne_of_lt hless) hnot,
      fun heq => .inr fun column hcolumn => ?_, fun h => shownCells_of_short (h.resolve_left hnot)⟩
    · rw [show data ⟨c.title, c.columns⟩ = _ from heq, List.length_map] at hless
      exact absurd hless (Nat.lt_irrefl _)
    · by_contra hlong
      -- all columns have a second cell, so each of them would be shown
      have hall : (c.columns.filterMap second?).length = c.columns.length := by
        refine List.filterMap_length_eq_length.mpr fun other hother => ?_
        have hsecond : 1 < other.2.length := by
          rw [length_column hs other hother, ← length_column hs column hcolumn]
          exact Nat.not_lt.mp hlong
        simp [second?, hsecond]
      have hle : (shownCells c).length ≤ c.data.length := List.length_filterMap_le _ _
      rw [heq, hall] at hle
      exact absurd hless (Nat.not_lt.mpr hle)

def pairOf (first second : String) : SheetContents where
  title := "Sheet1"
  columns := [(1, first, "1"), (2, second, "2")].map fun (n, head, digit) =>
    (Columns.letters n, [⟨Columns.letters n ++ "1", .str head, .text⟩,
      ⟨Columns.letters n ++ "2", .str digit, .text⟩])

theorem pair_kept : readSpreadsheet "t.csv" (.bytes [97, 44, 98, 10, 49, 44, 50]) =
      .ok [pairOf "a" "b"]
    ∧ (pairOf "a" "b").data.length = 2 ∧ Apart (pairOf "a" "b").columns :=
  have hread : readSpreadsheet "t.csv" (.bytes [97, 44, 98, 10, 49, 44, 50]) =
      .ok [pairOf "a" "b"] := rfl
  ⟨hread, rfl, (columns_kept_iff hread (.head _)).2.1.mp rfl⟩

/-- Of two columns with one header the second is left, and the formula service is asked about it
only. -/
theorem pair_halved : readSpreadsheet "t.csv" (.bytes [97, 44, 97, 10, 49, 44, 50]) =
      .ok [pairOf "a" "a"]
    ∧ (pairOf "a" "a").data.length = 1 ∧ shownFormulas [pairOf "a" "a"] = ["\"2\""] :=
  ⟨rfl, rfl, rfl⟩

end SheetIntake.SheetContents
