import SheetIntake.Proofs.RaggedRows
import SheetIntake.Proofs.Utf8RoundTrip

/-!
# Tables written as comma separated rows

A table is written with every field in quotes. A text is cut into lines before its quotes are looked
at, so a line break inside a field ends a line. The field goes on with the next one, and the break is
lost.

* `SheetContents.written_read_back` — what a written table is read as.
-/

namespace SheetIntake

namespace Csv

/-- A field in quotes, with every quote in it doubled. -/
def quotedField (field : String) : List Char :=
  '"' :: field.toList.flatMap (fun c => if c = '"' then ['"', '"'] else [c]) ++ ['"']

/-- A row: quoted fields joined by commas. -/
def writtenRow (row : List String) : List Char :=
  [','].intercalate (row.map quotedField)

/-- A table: rows joined by line feeds. -/
def written (table : List (List String)) : String :=
  .ofList (['\n'].intercalate (table.map writtenRow))

/-- A field without the characters that end a line. -/
def unbroken (field : String) : String :=
  .ofList (field.toList.filter fun c => !Text.isBreak c)

/-! ## Scanning -/

/-- From a scanner's state, wherever in a line it stands, the rest of a text gives some rows. -/
def Yields (t : Scanner) (cs : List Char) (rows : List (List String)) : Prop :=
  ∀ s line, line.reverse.foldl Scanner.step s = t →
    rowsFrom s ((Text.splitLines line cs).map String.ofList) = rows

variable {t : Scanner} {c : Char} {cs : List Char} {rows : List (List String)}

theorem splitLines_of_not_isBreak (hc : Text.isBreak c = false) (line cs : List Char) :
    Text.splitLines line (c :: cs) = Text.splitLines (c :: line) cs := by
  rw [Text.splitLines.eq_3, if_neg (by simp [hc])]
  rintro rest rfl
  cases hc

theorem splitLines_lineFeed (line cs : List Char) :
    Text.splitLines line ('\n' :: cs) = line.reverse :: Text.splitLines [] cs := by
  rw [Text.splitLines.eq_3 _ _ _ (fun _ h => by cases h), if_pos (by decide)]

theorem Yields.step (hc : Text.isBreak c = false) (h : Yields (t.step c) cs rows) :
    Yields t (c :: cs) rows := by
  intro s line hline
  rw [splitLines_of_not_isBreak hc]
  exact h s _ (by rw [List.reverse_cons, List.foldl_concat, hline])

theorem rowsFrom_cons (s : Scanner) (line : List Char) (lines : List String) :
    rowsFrom s (String.ofList line :: lines) =
      if (line.foldl Scanner.step s).mode = .quoted then rowsFrom (line.foldl Scanner.step s) lines
      else (line.foldl Scanner.step s).row :: rowsFrom {} lines := by
  rw [rowsFrom, String.toList_ofList]

/-- A line break inside a quoted field is dropped. -/
theorem Yields.lineBreak (hc : Text.isBreak c) (hmode : t.mode = .quoted) (h : Yields t cs rows) :
    Yields t (c :: cs) rows := by
  intro s line hline
  have hrest := h t [] rfl
  unfold Text.splitLines
  split
  · next heq => cases heq
  · next rest heq =>
    -- the line feed after a carriage return would end an empty line
    obtain ⟨rfl, rfl⟩ := List.cons.inj heq
    rw [splitLines_lineFeed, List.map_cons, rowsFrom_cons, List.reverse_nil, List.foldl_nil,
      if_pos hmode] at hrest
    rw [List.map_cons, rowsFrom_cons, hline, if_pos hmode, hrest]
  · next heq =>
    obtain ⟨rfl, rfl⟩ := List.cons.inj heq
    rw [if_pos hc, List.map_cons, rowsFrom_cons, hline, if_pos hmode, hrest]

/-- A line feed after a closed field ends the row. -/
theorem Yields.lineFeed (hmode : t.mode ≠ .quoted) (h : Yields {} cs rows) :
    Yields t ('\n' :: cs) (t.row :: rows) := by
  intro s line hline
  rw [splitLines_lineFeed, List.map_cons, rowsFrom_cons, hline, if_neg hmode, h {} [] rfl]

/-- The end of the text ends the row. -/
theorem Yields.last (hc : Text.isBreak c = false) (hmode : (t.step c).mode ≠ .quoted) :
    Yields t [c] [(t.step c).row] := by
  intro s line hline
  rw [splitLines_of_not_isBreak hc, Text.splitLines, if_neg (by simp), List.map_singleton,
    rowsFrom_cons, List.reverse_cons, List.foldl_concat, hline, if_neg hmode]
  rfl

/-! ## Fields, rows and tables -/

variable {fields : List String} {cs' : List Char}

theorem Yields.content {content : List Char} (h : Yields
      ⟨fields, (content.filter fun c => !Text.isBreak c).reverse ++ cs', .quoted⟩ cs rows) :
    Yields ⟨fields, cs', .quoted⟩
      (content.flatMap (fun c => if c = '"' then ['"', '"'] else [c]) ++ cs) rows := by
  induction content generalizing cs' with
  | nil => exact h
  | cons c content ih =>
    rw [List.flatMap_cons, List.append_assoc]
    by_cases hbreak : Text.isBreak c
    · rw [if_neg (by rintro rfl; cases hbreak)]
      rw [List.filter_cons_of_neg (by simp [hbreak])] at h
      exact (ih h).lineBreak hbreak rfl
    · rw [List.filter_cons_of_pos (by simp [hbreak]), List.reverse_cons, List.append_assoc] at h
      have hrest := ih h
      split
      · next hquote =>
        subst hquote
        exact .step rfl (.step rfl hrest)
      · next hquote =>
        have hstep : Scanner.step ⟨fields, cs', .quoted⟩ c = ⟨fields, c :: cs', .quoted⟩ :=
          if_neg hquote
        exact .step (Bool.eq_false_iff.mpr hbreak) (hstep ▸ hrest)

theorem Yields.field {field : String} {mode : Mode} (hmode : mode = .rowStart ∨ mode = .fieldStart)
    (h : Yields ⟨fields, (unbroken field).toList.reverse, .quoted⟩ ('"' :: cs) rows) :
    Yields ⟨fields, [], mode⟩ (quotedField field ++ cs) rows := by
  rw [quotedField, List.cons_append, List.cons_append, List.append_assoc]
  have hstep : Scanner.step ⟨fields, [], mode⟩ '"' = ⟨fields, [], .quoted⟩ := by
    rcases hmode with rfl | rfl <;> rfl
  refine .step rfl (hstep ▸ .content ?_)
  rwa [unbroken, String.toList_ofList, ← List.append_nil (List.reverse _)] at h

/-- When the last field of a row is to be closed the scanner stands after the other ones. -/
theorem Yields.row {field : String} {row : List String} {mode : Mode}
    (hmode : mode = .rowStart ∨ mode = .fieldStart) (h : ∀ t : Scanner, t.mode = .quoted →
      t.row = fields ++ (field :: row).map unbroken → Yields t ('"' :: cs) rows) :
    Yields ⟨fields, [], mode⟩ (writtenRow (field :: row) ++ cs) rows := by
  induction row generalizing fields field mode with
  | nil =>
    rw [writtenRow, List.map_singleton, List.intercalate_singleton]
    exact .field hmode (h _ rfl (by simp [Scanner.row, Scanner.close]))
  | cons next row ih =>
    rw [writtenRow, List.map_cons, List.map_cons, List.intercalate_cons_cons, List.append_assoc,
      List.append_assoc]
    refine .field hmode (.step rfl (.step rfl (ih (.inr rfl) fun t ht hfields => h t ht ?_)))
    simpa [Scanner.step, Scanner.close] using hfields

theorem yields_written {table : List (List String)} (h : ∀ row ∈ table, row ≠ [])
    (hne : table ≠ []) :
    Yields {} (['\n'].intercalate (table.map writtenRow)) (table.map (·.map unbroken)) := by
  have hclosed (t : Scanner) (ht : t.mode = .quoted) :
      (t.step '"').mode = .quoteSeen ∧ (t.step '"').row = t.row := by
    obtain ⟨fields, field, mode⟩ := t
    cases ht
    exact ⟨rfl, rfl⟩
  induction table with
  | nil => exact absurd rfl hne
  | cons row table ih =>
    obtain ⟨hrow, htable⟩ := List.forall_mem_cons.mp h
    obtain ⟨field, row, rfl⟩ := List.exists_cons_of_ne_nil hrow
    cases table with
    | nil =>
      rw [List.map_singleton, List.intercalate_singleton, ← List.append_nil (writtenRow _)]
      refine .row (.inl rfl) fun t ht hfields => ?_
      obtain ⟨hmode, hclose⟩ := hclosed t ht
      rw [List.map_singleton, ← List.nil_append (List.map _ _), ← hfields, ← hclose]
      exact .last rfl (by simp [hmode])
    | cons next table =>
      rw [List.map_cons, List.map_cons, List.intercalate_cons_cons, List.append_assoc]
      refine .row (.inl rfl) fun t ht hfields => ?_
      obtain ⟨hmode, hclose⟩ := hclosed t ht
      rw [List.map_cons, ← List.nil_append (List.map _ (field :: row)), ← hfields, ← hclose]
      exact .step rfl (.lineFeed (by simp [hmode]) (ih htable (List.cons_ne_nil _ _)))

/-- A table is read back without its line breaks. -/
theorem rows_lines_written {table : List (List String)} (h : ∀ row ∈ table, row ≠ [])
    (hne : table ≠ []) :
    Csv.rows (Text.lines (written table)) = table.map (·.map unbroken) := by
  rw [Csv.rows, Text.lines, written, String.toList_ofList]
  exact yields_written h hne {} [] rfl

end Csv

namespace Sheet

variable {rows : List (List String)}

theorem width_of_length {k : Nat} (hne : rows ≠ []) (h : ∀ row ∈ rows, row.length = k) :
    (ofRows rows).width = k := by
  obtain ⟨row, hrow, hlength⟩ := (isGreatest_width hne).1
  rw [← hlength, h row hrow]

theorem height_of_ne_nil (h : ∀ row ∈ rows, row ≠ []) : (ofRows rows).height = rows.length := by
  induction rows with
  | nil => rfl
  | cons row rest ih =>
    obtain ⟨hrow, hrest⟩ := List.forall_mem_cons.mp h
    rw [height_cons, ih hrest, List.isEmpty_eq_false_iff.mpr hrow]
    cases rest <;> simp

end Sheet

namespace SheetContents

open Csv (unbroken written)
open Outcome

variable {filename : String} {table : List (List String)} {k : Nat}

theorem ofSheet_ne_ok (h : lastColumn < (Sheet.ofRows table).width) (c : SheetContents) :
    ofSheet (.ofRows table) ≠ .ok c := by
  intro hc
  obtain ⟨columns, hcolumns, -⟩ := bind_eq_ok.mp hc
  obtain ⟨column, -, hcolumn⟩ := exists_of_mapM_eq_ok hcolumns (List.mem_range.mpr h)
  unfold namedColumn at hcolumn
  rw [if_pos (Nat.lt_succ_self _)] at hcolumn
  cases hcolumn

theorem storable_unbroken {field : String} (h : Cell.Storable field) :
    Cell.Storable (unbroken field) := by
  rw [Cell.Storable, unbroken, String.length_ofList, String.toList_ofList]
  exact ⟨(List.length_filter_le _ _).trans h.1, fun c hc => h.2 c (List.mem_of_mem_filter hc)⟩

theorem unbroken_eq_self {field : String} :
    unbroken field = field ↔ field.toList.any Text.isBreak = false := by
  rw [unbroken, ← String.toList_inj, String.toList_ofList, List.filter_eq_self]
  simp

/-- A table is read as it was written, but without the line breaks in its fields, if there are
letters for its columns, and otherwise not at all. It stays the same if it has no line breaks. -/
theorem written_read_back (hname : Text.endsWith filename ".csv") (hne : table ≠ []) (hk : 0 < k)
    (hrows : ∀ row ∈ table, row.length = k ∧ ∀ field ∈ row, Cell.Storable field) :
    (k ≤ lastColumn → readSpreadsheet filename (.bytes (Text.encodeUtf8 (written table))) =
        .ok [⟨"Sheet1", (List.range k).map (columnOf (table.map (·.map unbroken)) table.length)⟩])
      ∧ (lastColumn < k → ∀ sheets,
        readSpreadsheet filename (.bytes (Text.encodeUtf8 (written table))) ≠ .ok sheets)
      ∧ (table.map (·.map unbroken) = table ↔
        ∀ row ∈ table, ∀ field ∈ row, field.toList.any Text.isBreak = false) := by
  have hfilled : ∀ row ∈ table, row ≠ [] := fun row hrow =>
    List.length_pos_iff.mp ((hrows row hrow).1 ▸ hk)
  have hself {α : Type} (f : α → α) (xs : List α) : xs.map f = xs ↔ ∀ x ∈ xs, f x = x := by
    simpa using @List.map_inj_left _ _ xs f id
  have hread := readSpreadsheet_csv hname (Text.decodeUtf8_encodeUtf8 (written table))
    (Csv.rows_lines_written hfilled hne) (List.forall_mem_map.mpr fun row hrow =>
      List.forall_mem_map.mpr fun field hfield =>
        storable_unbroken ((hrows row hrow).2 field hfield))
  have hwidth : (Sheet.ofRows (table.map (·.map unbroken))).width = k :=
    Sheet.width_of_length (by simpa using hne) (by simpa using fun row hrow => (hrows row hrow).1)
  have hheight : (Sheet.ofRows (table.map (·.map unbroken))).height = table.length := by
    rw [Sheet.height_of_ne_nil (by simpa using hfilled), List.length_map]
  refine ⟨fun hle => ?_, fun hlt sheets hok => ?_, by simp only [hself, unbroken_eq_self]⟩
  · rw [hread, ofSheet_ofRows (hwidth.le.trans hle), hwidth, hheight]
    rfl
  · obtain ⟨c, hc, -⟩ := map_eq_ok.mp (hread.symm.trans hok)
    exact ofSheet_ne_ok (hwidth ▸ hlt) c hc

theorem quoted_pair_read_back :
    readSpreadsheet "t.csv" (.bytes (Text.encodeUtf8 "\"a,\"\"b\",\"\"")) =
      .ok [⟨"Sheet1", [0, 1].map (columnOf [["a,\"b", ""]] 1)⟩] :=
  (@written_read_back "t.csv" [["a,\"b", ""]] 2 rfl (by decide) (by decide)
    (by decide)).1 (by decide)

/-- The field of a table with a line feed in it is read without the line feed. -/
theorem line_feed_lost :
    ∃ c, readSpreadsheet "t.csv" (.bytes (Text.encodeUtf8 (written [["a\nb"]]))) = .ok [c]
      ∧ c.columns.map (fun column => column.2.map (·.cell.value)) = [[.str "ab"]] := by
  have hread := @readSpreadsheet_csv "t.csv" (written [["a\nb"]]) _ [["ab"]] rfl
    (Text.decodeUtf8_encodeUtf8 _) rfl (by decide)
  exact ⟨_, hread.trans (congrArg (Except.map _) (ofSheet_ofRows (by decide))), rfl⟩

end SheetContents

end SheetIntake
