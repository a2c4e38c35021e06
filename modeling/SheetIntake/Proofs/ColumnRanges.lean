import SheetIntake.Proofs.ColumnOrder
import SheetIntake.Proofs.FaithfulTranslation

/-!
# Ranges of columns

A range is resolved letter by letter, in capitals, from its first column to its last.

* `Formula.range_resolved_whole` — the columns of a range are those on the way between its corners, and
  they are resolved so.
* `Formula.cell_like_range_iff` — when a cell and the range of that cell alone are resolved alike.
* `Formula.corners_interchangeable_iff` — when the corners of a range may be exchanged.
-/

namespace SheetIntake

open Outcome
open Assoc (get?)

def Text.IsBlank (s : String) : Prop :=
  ∀ c ∈ s.toList, isBlank c = true

namespace Columns

variable {name key : String}

/-! ## Keys of cells -/

theorem span_self_of_isAlpha (h : ∀ c ∈ name.toList, c.isAlpha) :
    span name name = [Text.upper name] := by
  rw [← span_self (isCapital_upper h), span, span, index_upper h]

/-- The key of a cell: basic letters of either case, digits and marks. -/
def IsKey (key : String) : Prop :=
  ∀ c ∈ key.toList, c.isAlpha = true ∨ c.isDigit = true ∨ c = '$'

instance (key : String) : Decidable (IsKey key) :=
  List.decidableBAll _ _

theorem IsKey.isAlpha_ofCell (h : IsKey key) : ∀ c ∈ (ofCell key).toList, c.isAlpha := by
  intro c hc
  rw [ofCell, String.toList_ofList, List.mem_filter] at hc
  refine (h c hc.1).resolve_right fun hmark => ?_
  exact Bool.false_ne_true ((Text.isLetter_of_mark hmark).symm.trans hc.2)

end Columns

namespace Formula

open Columns (IsCapital IsKey Stretch index next ofCell span)

variable {members : List (String × Value)} {letters : List String} {columns : List Value}
  {error : Option String} {first last : String}

/-! ## All or nothing -/

/-- What several columns are resolved to. Each of them has a name, or there are no names and the error
is about the first that has none. -/
inductive Resolved (members : List (String × Value)) :
    List String → List Value → Option String → Prop where
  | all {letters : List String} {columns : List Value}
      (h : List.Forall₂ (fun l v => Assoc.get? l members = some v) letters columns) :
      Resolved members letters columns none
  | nothing {before after : List String} {l : String}
      (hbefore : ∀ k ∈ before, (Assoc.get? k members).isSome = true)
      (h : Assoc.get? l members = none) :
      Resolved members (before ++ l :: after) [] (some (Fault.missing (.str l)).inspect)

theorem exists_resolved (members : List (String × Value)) (letters : List String) :
    ∃ columns error, columnNames (.object members) letters = .ok (columns, error)
      ∧ Resolved members letters columns error := by
  cases h : letters.mapM (Value.object members).member with
  | ok columns =>
    refine ⟨columns, none, by rw [columnNames, h], .all ?_⟩
    exact (mapM_eq_ok.mp h).imp fun _ _ => member_eq_ok.mp
  | error fault =>
    obtain ⟨before, l, after, rfl, hbefore, hl⟩ := mapM_eq_error_iff.mp h
    have hnone : get? l members = none := by
      by_contra hsome
      obtain ⟨v, hv⟩ := Option.ne_none_iff_exists'.mp hsome
      exact error_ne_ok (hl.symm.trans (member_eq_ok.mpr hv))
    rw [Value.member, hnone] at hl
    cases hl
    refine ⟨[], _, by rw [columnNames, h], .nothing (fun k hk => ?_) hnone⟩
    obtain ⟨v, hv⟩ := hbefore k hk
    rw [member_eq_ok.mp hv, Option.isSome_some]

theorem Resolved.error_eq_none_iff (h : Resolved members letters columns error) :
    error = none ↔ ∀ l ∈ letters, (get? l members).isSome := by
  cases h with
  | all h =>
    refine iff_of_true rfl fun l hl => ?_
    have hmembers := mapM_eq_ok.mpr (h.imp fun _ _ => member_eq_ok.mpr)
    obtain ⟨v, -, hv⟩ := exists_of_mapM_eq_ok hmembers hl
    rw [member_eq_ok.mp hv, Option.isSome_some]
  | nothing _ h =>
    refine iff_of_false (Option.some_ne_none _) fun hall => ?_
    have hmapped := hall _ (List.mem_append_right _ (.head _))
    rw [h] at hmapped
    exact Bool.false_ne_true hmapped

/-- A range is resolved as a whole or not at all. Its letters are those on the way from the column of
its first corner to that of its last. -/
theorem range_resolved_whole (members : List (String × Value)) (first last : String)
    (firstKind lastKind : Value) (hfirst : IsCapital (ofCell first))
    (hlast : IsCapital (ofCell last)) :
    ∃ letters columns error,
      translate (.object members) (.range (cellAt first firstKind) (cellAt last lastKind)) =
          .ok (.range (Text.replaceAll first "$" "") (Text.replaceAll last "$" "") letters columns
            error)
        ∧ (∀ names, Stretch (ofCell first) (ofCell last) names ↔ names = letters ∧ letters ≠ [])
        ∧ Resolved members letters columns error
        ∧ (error = none ↔ ∀ l ∈ letters, (Assoc.get? l members).isSome = true) := by
  obtain ⟨columns, error, hcolumns, h⟩ := exists_resolved members
    (span (ofCell first) (ofCell last))
  exact ⟨_, columns, error, translate_between hcolumns,
    fun names => Columns.stretch_iff hfirst hlast, h, h.error_eq_none_iff⟩

def threeNames : List (String × Value) :=
  [("Y", .str "y"), ("Z", .str "z"), ("AA", .str "a")]

/-- A range with a gap at its end has no columns and an error. -/
theorem range_with_gap_unresolved : ∃ columns error,
    translate (.object threeNames) (.range (cellAt "Y1" .null) (cellAt "$AB2" .null)) =
        .ok (.range "Y1" "AB2" ["Y", "Z", "AA", "AB"] columns error)
      ∧ Resolved threeNames ["Y", "Z", "AA", "AB"] columns error ∧ error ≠ none := by
  obtain ⟨letters, columns, error, ht, hletters, hresolved, hiff⟩ :=
    range_resolved_whole threeNames "Y1" "$AB2" .null .null (by decide +kernel) (by decide +kernel)
  have hstretch : Stretch "Y" "AB" ["Y", "Z", "AA", "AB"] :=
    (Columns.stretch_iff (by decide +kernel) (by decide +kernel)).mpr (by decide +kernel)
  rw [show ofCell "Y1" = "Y" by decide +kernel,
    show ofCell "$AB2" = "AB" by decide +kernel] at hletters
  obtain ⟨rfl, -⟩ := (hletters _).mp hstretch
  refine ⟨columns, error, ht, hresolved, ?_⟩
  rw [Ne, hiff]
  decide +kernel

/-! ## A cell and the range of that cell -/

theorem exists_translate_cellAt (members : List (String × Value)) (key : String) (kind : Value) :
    ∃ column error, translate (.object members) (cellAt key kind) =
        .ok (.cell (Text.replaceAll key "$" "") kind column error)
      ∧ (error = none ∧ get? (ofCell key) members = some column
        ∨ error ≠ none ∧ get? (ofCell key) members = none) := by
  cases h : get? (ofCell key) members with
  | none => exact ⟨_, _, translate_cellAt (columnName_of_none h), .inr ⟨Option.some_ne_none _, rfl⟩⟩
  | some column => exact ⟨column, none, translate_cellAt (columnName_of_get? h), .inl ⟨rfl, rfl⟩⟩

theorem Resolved.singleton {l : String} (h : Resolved members [l] columns error) :
    (error = none ∧ ∃ v, columns = [v] ∧ get? l members = some v)
      ∨ error ≠ none ∧ get? l members = none := by
  generalize hletters : [l] = letters at h
  cases h with
  | all h =>
    subst hletters
    obtain _ | ⟨hv, ⟨⟩⟩ := h
    exact .inl ⟨rfl, _, rfl, hv⟩
  | @nothing before _ _ _ h =>
    cases before with
    | nil =>
      obtain ⟨rfl, -⟩ := List.cons.inj hletters
      exact .inr ⟨Option.some_ne_none _, h⟩
    | cons _ before => exact absurd (List.cons.inj hletters).2 (by simp)

/-- A cell and the range from it to itself are resolved alike exactly if the column map has the same
name, or none, for the letters of the cell as they are written and in capitals. -/
theorem cell_like_range_iff (members : List (String × Value)) (key : String) (kind : Value)
    (hkey : IsKey key) :
    ∃ column error letters columns rangeError,
      translate (.object members) (cellAt key kind) =
          .ok (.cell (Text.replaceAll key "$" "") kind column error)
        ∧ translate (.object members) (.range (cellAt key kind) (cellAt key kind)) =
          .ok (.range (Text.replaceAll key "$" "") (Text.replaceAll key "$" "") letters columns
            rangeError)
        ∧ ((error = none ↔ rangeError = none) ∧ (error = none → columns = [column]) ↔
          Assoc.get? (ofCell key) members = Assoc.get? (Text.upper (ofCell key)) members) := by
  obtain ⟨column, error, hcell, hname⟩ := exists_translate_cellAt members key kind
  obtain ⟨columns, rangeError, hcolumns, hresolved⟩ := exists_resolved members
    (span (ofCell key) (ofCell key))
  refine ⟨column, error, _, columns, rangeError, hcell, translate_between hcolumns, ?_⟩
  rw [Columns.span_self_of_isAlpha hkey.isAlpha_ofCell] at hresolved
  rcases hname with ⟨rfl, hname⟩ | ⟨herror, hname⟩ <;>
    rcases hresolved.singleton with ⟨rfl, v, rfl, hv⟩ | ⟨hrange, hv⟩
  · simp [hname, hv, eq_comm]
  · simp [hname, hv, hrange]
  · simp [hname, hv, herror]
  · simp [hname, hv, herror, hrange]

theorem marked_cell_like_range : ∃ column error letters columns rangeError,
    translate (.object threeNames) (cellAt "$AA$1" .null) = .ok (.cell "AA1" .null column error)
      ∧ translate (.object threeNames) (.range (cellAt "$AA$1" .null) (cellAt "$AA$1" .null)) =
        .ok (.range "AA1" "AA1" letters columns rangeError)
      ∧ (error = none ↔ rangeError = none) ∧ (error = none → columns = [column]) := by
  obtain ⟨column, error, letters, columns, rangeError, hcell, hrange, hiff⟩ :=
    cell_like_range_iff threeNames "$AA$1" .null (by decide +kernel)
  exact ⟨column, error, letters, columns, rangeError, hcell, hrange, hiff.mpr (by decide +kernel)⟩

/-- In small letters, a cell is not found where the range of it is. -/
theorem small_cell_unlike_range :
    (∃ error, translate (.object [("A", .str "x")]) (cellAt "a1" .null) =
        .ok (.cell "a1" .null (.str "") (some error)))
      ∧ translate (.object [("A", .str "x")]) (.range (cellAt "a1" .null) (cellAt "a1" .null)) =
        .ok (.range "a1" "a1" ["A"] [.str "x"] none) := by
  refine ⟨⟨_, translate_cellAt (columnName_of_none (by decide +kernel))⟩, ?_⟩
  have hspan : span (ofCell "a1") (ofCell "a1") = ["A"] := by decide +kernel
  rw [← hspan]
  exact translate_between (by rw [hspan]; rfl)

/-! ## Corners in the other order -/

/-- The names that a range gives without an error, and the SQL of the sum over it. -/
def Totals (members : List (String × Value)) (range : Formula) (columns : List Value)
    (sql : String) : Prop :=
  (∃ first last letters, range.translate (.object members) =
      .ok (.range first last letters columns none))
    ∧ ∃ arguments, translate (.object members) (.call (.ok (.str "SUM")) [range]) =
      .ok (.call "SUM" arguments sql)

def spanNames (members : List (String × Value)) (first last : String) : List String :=
  (span first last).map (Expression.columnOf (.object members))

theorem spanNames_eq_nil (h : index last < index first) : spanNames members first last = [] := by
  rw [spanNames, Columns.span_eq_nil h, List.map_nil]

theorem totals_of_columnNames {names : List String} {kind kind' : Value}
    (h : columnNames (.object members) (span (ofCell first) (ofCell last)) =
      .ok (names.map .str, none)) :
    Totals members (.range (cellAt first kind) (cellAt last kind')) (names.map .str)
      (String.intercalate " + " names) :=
  ⟨⟨_, _, _, translate_between h⟩, _, translate_sum (translate_between h) rfl⟩

theorem columnNames_spanNames (hfirst : IsCapital first) (hlast : IsCapital last)
    (hcovers : ∀ names, Stretch first last names →
      ∀ l ∈ names, ∃ name : String, get? l members = some (.str name)) :
    columnNames (.object members) (span first last) =
      .ok ((spanNames members first last).map .str, none) := by
  refine Expression.columnNames_eq fun l hl => ?_
  have hstretch := (Columns.stretch_iff hfirst hlast).mpr ⟨rfl, List.ne_nil_of_mem hl⟩
  obtain ⟨name, hname⟩ := hcovers _ hstretch l hl
  rw [Expression.columnOf_eq (member_eq_ok.mpr hname), member_eq_ok.mpr hname]

/-- From a column to a later one there are two at least, so there is a sign between their names. -/
theorem spanNames_not_blank (members : List (String × Value)) (hfirst : IsCapital first)
    (hlt : index first < index last) : spanNames members first last ≠ []
      ∧ ¬ Text.IsBlank (String.intercalate " + " (spanNames members first last)) := by
  rw [spanNames, Columns.span_cons hfirst hlt.le, Columns.span_cons (Columns.isCapital_next hfirst)
    (by rw [Columns.index_next hfirst]; omega), List.map_cons, List.map_cons]
  refine ⟨List.cons_ne_nil _ _, fun hblank => ?_⟩
  have hsign := hblank '+' (by simp [String.intercalate_cons_cons])
  cases hsign

/-- The corners of a range can be exchanged exactly if they are in one column, whose name is not
blank. From a column to a later one the range has columns and its sum a text, but there are none from
the later column to the earlier one. -/
theorem corners_interchangeable_iff (members : List (String × Value)) (first last : String)
    (firstKind lastKind : Value) (hfirst : IsCapital (ofCell first))
    (hlast : IsCapital (ofCell last))
    (hcovers : ∀ names, Stretch (ofCell first) (ofCell last) names
      ∨ Stretch (ofCell last) (ofCell first) names →
        ∀ l ∈ names, ∃ name : String, Assoc.get? l members = some (.str name)) :
    ∃ columns sql columns' sql',
      Totals members (.range (cellAt first firstKind) (cellAt last lastKind)) columns sql
        ∧ Totals members (.range (cellAt last lastKind) (cellAt first firstKind)) columns' sql'
        ∧ ((∀ v, v ∈ columns ↔ v ∈ columns') ∧ columns ≠ [] ∧ ¬ Text.IsBlank sql
            ∧ ¬ Text.IsBlank sql' ↔ ofCell first = ofCell last
              ∧ ∃ name : String, Assoc.get? (ofCell first) members = some (.str name)
                ∧ ¬ Text.IsBlank name)
        ∧ ((∃ names, Stretch (next (ofCell first)) (ofCell last) names) →
          columns ≠ [] ∧ ¬ Text.IsBlank sql ∧ columns' = [] ∧ sql' = "") := by
  have hforth := columnNames_spanNames hfirst hlast fun names h => hcovers names (.inl h)
  have hback := columnNames_spanNames hlast hfirst fun names h => hcovers names (.inr h)
  refine ⟨_, _, _, _, totals_of_columnNames hforth, totals_of_columnNames hback, ?_, ?_⟩
  · rcases lt_trichotomy (index (ofCell first)) (index (ofCell last)) with hlt | heq | hlt
    · obtain ⟨hsome, -⟩ := spanNames_not_blank members hfirst hlt
      rw [spanNames_eq_nil hlt]
      refine iff_of_false (fun h => hsome ?_) fun h => hlt.ne (congrArg _ h.1)
      simpa [List.eq_nil_iff_forall_not_mem] using h.1
    · have hsame : ofCell first = ofCell last := by
        rw [← Columns.letters_index hfirst, heq, Columns.letters_index hlast]
      obtain ⟨name, hname⟩ := hcovers [ofCell first] (.inl (hsame ▸ .last _)) (ofCell first)
        List.mem_cons_self
      have hnames : spanNames members (ofCell first) (ofCell first) = [name] := by
        rw [spanNames, Columns.span_self hfirst, List.map_singleton,
          Expression.columnOf_eq (member_eq_ok.mpr hname)]
      rw [← hsame, hnames]
      simp [hname]
    · rw [spanNames_eq_nil hlt]
      exact iff_of_false (fun h => h.2.1 rfl) fun h => hlt.ne (congrArg _ h.1.symm)
  · rintro ⟨names, hway⟩
    have hle := hway.index_le (Columns.isCapital_next hfirst)
    rw [Columns.index_next hfirst] at hle
    obtain ⟨hsome, hsql⟩ := spanNames_not_blank members hfirst (Int.add_one_le_iff.mp hle)
    rw [spanNames_eq_nil (Int.add_one_le_iff.mp hle)]
    exact ⟨by simpa using hsome, hsql, rfl, rfl⟩

theorem neighbours_summed_one_way : ∃ columns sql columns' sql',
    Totals threeNames (.range (cellAt "$Z1" .null) (cellAt "AA9" .null)) columns sql
      ∧ Totals threeNames (.range (cellAt "AA9" .null) (cellAt "$Z1" .null)) columns' sql'
      ∧ columns ≠ [] ∧ ¬ Text.IsBlank sql ∧ columns' = [] ∧ sql' = "" := by
  have hz : ofCell "$Z1" = "Z" := by decide +kernel
  have ha : ofCell "AA9" = "AA" := by decide +kernel
  have hcapital : IsCapital "Z" ∧ IsCapital "AA" := by decide +kernel
  obtain ⟨columns, sql, columns', sql', hforth, hback, -, hlater⟩ :=
    corners_interchangeable_iff threeNames "$Z1" "AA9" .null .null (hz ▸ hcapital.1)
      (ha ▸ hcapital.2) fun names hnames => by
        rw [hz, ha, Columns.stretch_iff hcapital.1 hcapital.2,
          Columns.stretch_iff hcapital.2 hcapital.1, show span "Z" "AA" = ["Z", "AA"] by
            decide +kernel, show span "AA" "Z" = [] by decide +kernel] at hnames
        rcases hnames with ⟨rfl, -⟩ | ⟨-, hne⟩
        · exact List.forall_mem_cons.mpr ⟨⟨"z", rfl⟩, List.forall_mem_singleton.mpr ⟨"a", rfl⟩⟩
        · exact absurd rfl hne
  refine ⟨columns, sql, columns', sql', hforth, hback, hlater ⟨["AA"], ?_⟩⟩
  rw [hz, ha, show next "Z" = "AA" by decide +kernel]
  exact .last "AA"

/-- The sum of two columns is empty if the later one comes first. -/
theorem later_corner_first_sums_nothing :
    Totals threeNames (.range (cellAt "Y1" .null) (cellAt "Z1" .null)) [.str "y", .str "z"] "y + z"
      ∧ Totals threeNames (.range (cellAt "Z1" .null) (cellAt "Y1" .null)) [] "" := by
  constructor
  · refine @totals_of_columnNames _ _ _ ["y", "z"] _ _ ?_
    rw [show span (ofCell "Y1") (ofCell "Z1") = ["Y", "Z"] by decide +kernel]
    rfl
  · refine @totals_of_columnNames _ _ _ [] _ _ ?_
    rw [show span (ofCell "Z1") (ofCell "Y1") = [] by decide +kernel]
    rfl

end Formula

end SheetIntake
