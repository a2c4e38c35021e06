import SheetIntake.Proofs.Composition
import SheetIntake.Proofs.FormulaCells

/-!
# Translations do not depend on rows

A formula stands in one row of a sheet and is translated for all of them. So nothing in its SQL may
come from the rows of its cells, from the marks in their keys, or from how they are referred to.

`Formula.rowless` is a formula with nothing left of its cells but their letters. Two formulas of one
shape differ only in rows, marks and ways to refer exactly when they are the same then.

## The statement

* **`translate_alike_of_rowless`** — so two such formulas have the same fault, or translations that
  agree in all SQL and in what their ranges cover.
-/

namespace SheetIntake

open Outcome

/-! ## Letters of letters -/

namespace Columns

@[simp]
theorem ofCell_ofCell (cell : String) : ofCell (ofCell cell) = ofCell cell := by
  simp [ofCell, List.filter_filter]

theorem unmarked_ofCell (cell : String) : Text.replaceAll (ofCell cell) "$" "" = ofCell cell := by
  have hmark : ∀ c ∈ (ofCell cell).toList, ¬ c = '$' := by
    rintro c hc rfl
    rw [ofCell, String.toList_ofList, List.mem_filter, Text.isLetter_of_lt (by decide)] at hc
    cases hc.2
  have hkept : (ofCell cell).toList.flatMap (fun c => if c = '$' then [] else [c]) =
      (ofCell cell).toList := by
    rw [List.flatMap_congr (fun c hc => if_neg (hmark c hc)), List.flatMap_singleton']
  exact (congrArg String.ofList
    ((Text.replaceChars_singleton '$' [] (ofCell cell).toList).trans hkept)).trans
      (String.ofList_toList)

end Columns

/-! ## Leaving out the rows -/

namespace Formula

/-- The letters of a key; what is no text has none to give and stays as it is. -/
def letterField : Field → Field
  | .ok (.str key) => .ok (.str (Columns.ofCell key))
  | field => field

/-- That there is a way to refer, without saying which. -/
def someKind : Field → Field
  | .ok _ => .ok .null
  | .error fault => .error fault

mutual

/-- A formula with nothing left of its cells but their letters. -/
def rowless : Formula → Formula
  | .binary operator left right => .binary operator (rowless left) (rowless right)
  | .call name arguments => .call name (rowlessAll arguments)
  | .range first last => .range (rowless first) (rowless last)
  | .cell key refKind => .cell (letterField key) (someKind refKind)
  | f => f

def rowlessAll : List Formula → List Formula
  | [] => []
  | f :: rest => rowless f :: rowlessAll rest

end



end Formula

namespace Translated

mutual

/-- A translation with nothing left of its cells but their letters. -/
def rowless : Translated → Translated
  | .binary operator left right sql => .binary operator (rowless left) (rowless right) sql
  | .call name arguments sql => .call name (rowlessAll arguments) sql
  | .range first last letters columns error =>
    .range (Columns.ofCell first) (Columns.ofCell last) letters columns error
  | .cell name _ column error => .cell (Columns.ofCell name) .null column error
  | t => t

def rowlessAll : List Translated → List Translated
  | [] => []
  | t :: rest => rowless t :: rowlessAll rest

end

theorem rowlessAll_eq (ts : List Translated) : rowlessAll ts = ts.map rowless := by
  induction ts with
  | nil => rfl
  | cons t ts ih => rw [rowlessAll, ih, List.map_cons]

/-- What a range covers: the letters of its columns, their names, and the error where one has none. -/
def covered? : Translated → Option (List String × List Value × Option String)
  | .range _ _ letters columns error => some (letters, columns, error)
  | _ => none

@[simp]
theorem sql_rowless (t : Translated) : t.rowless.sql = t.sql := by
  cases t <;> rfl

@[simp]
theorem operand_rowless (t : Translated) : t.rowless.operand = t.operand := by
  cases t <;> rfl

@[simp]
theorem covered?_rowless (t : Translated) : t.rowless.covered? = t.covered? := by
  cases t <;> rfl

theorem nodes_rowless (t : Translated) : t.rowless.nodes = t.nodes.map rowless := by
  induction t using treeInduction with
  | binary operator left right sql ihleft ihright =>
    simp [rowless, nodes, ihleft, ihright]
  | call name arguments sql ih =>
    have hall : (arguments.map rowless).flatMap nodes = (arguments.flatMap nodes).map rowless := by
      rw [List.flatMap_map, List.map_flatMap]
      exact List.flatMap_congr ih
    simp [rowless, nodes, nodesOfAll_eq, rowlessAll_eq, hall]
  | range | cell | number | logical | text => rfl

end Translated

/-! ## Translating without rows -/

namespace Formula

variable (columns : Value)

theorem translateCell_rowless (key refKind : Field) :
    translateCell columns (letterField key) (someKind refKind) =
      (translateCell columns key refKind).map
        (fun r => (Columns.ofCell r.1, Value.null, r.2.2.1, r.2.2.2)) := by
  cases key with
  | error fault => rfl
  | ok value =>
    cases value with
    | str key =>
      simp only [letterField, translateCell, ok_bind, Value.receiveText, Columns.unmarked_ofCell,
        Columns.ofCell_ofCell, Columns.ofCell_unmarked]
      cases columnName columns (Columns.ofCell key) with
      | error fault => rfl
      | ok found =>
        cases refKind with
        | error fault => rfl
        | ok way => simp [someKind, Except.map, pure, Except.pure, Columns.ofCell_unmarked]
    | _ => rfl

theorem corner_rowless (f : Formula) :
    corner columns f.rowless = (corner columns f).map Columns.ofCell := by
  cases f with
  | cell key refKind =>
    rw [rowless, corner, corner, translateCell_rowless]
    cases translateCell columns key refKind <;> rfl
  | _ => rfl

theorem translateAll_rowless {fs : List Formula}
    (h : ∀ f ∈ fs, translate columns f.rowless = (translate columns f).map Translated.rowless) :
    translateAll columns (rowlessAll fs) = (translateAll columns fs).map Translated.rowlessAll := by
  induction fs with
  | nil => rfl
  | cons f fs ih =>
    obtain ⟨hf, hfs⟩ := List.forall_mem_cons.mp h
    rw [rowlessAll, translateAll, translateAll, hf, ih hfs]
    cases translate columns f <;> cases translateAll columns fs <;> rfl

theorem translate_rowless (f : Formula) :
    translate columns f.rowless = (translate columns f).map Translated.rowless := by
  induction f using treeInduction with
  | binary operator left right ihleft ihright =>
    simp only [rowless, translate, ihleft, ihright]
    cases translate columns left with
    | error fault => rfl
    | ok l =>
      cases translate columns right with
      | error fault => rfl
      | ok r =>
        simp only [Except.map, ok_bind, Translated.sql_rowless]
        cases operator with
        | error fault => rfl
        | ok operator => cases l.sql <;> cases r.sql <;> rfl
  | call name arguments ih =>
    -- a function is given the same operands, since these hold nothing of a row
    have hoperands (ts : List Translated) :
        (Translated.rowlessAll ts).map Translated.operand = ts.map Translated.operand := by
      rw [Translated.rowlessAll_eq, List.map_map]
      exact List.map_congr_left fun t _ => t.operand_rowless
    simp only [rowless, translate, translateAll_rowless columns ih]
    cases name with
    | error fault => rfl
    | ok name =>
      cases translateAll columns arguments with
      | error fault => rfl
      | ok ts =>
        simp only [Except.map, ok_bind, hoperands]
        cases name.receiveText "upper" with
        | error fault => rfl
        | ok called => cases hsql : Sql.function called (ts.map Translated.operand) <;>
            simp only [ok_bind, hsql] <;> rfl
  | range first last _ _ =>
    simp only [rowless, translate, corner_rowless]
    cases corner columns first with
    | error fault => rfl
    | ok a =>
      cases corner columns last with
      | error fault => rfl
      | ok b =>
        simp only [Except.map, ok_bind, Columns.ofCell_ofCell]
        cases columnNames columns (Columns.span (Columns.ofCell a) (Columns.ofCell b)) <;> rfl
  | cell key refKind =>
    rw [rowless, translate, translate, translateCell_rowless]
    cases translateCell columns key refKind <;> rfl
  | number value =>
    cases value with
    | error fault => rfl
    | ok v =>
      show translate columns (.number (.ok v)) = _
      simp only [translate, ok_bind]
      cases toNumber v <;> rfl
  | logical value => cases value <;> rfl
  | text value =>
    cases value with
    | error fault => rfl
    | ok v => cases v <;> rfl
  | unknown | unreadable => rfl

end Formula

/-- Take any two formulas that differ only in how their cells are referred to and in the characters of
the keys that are no letters, and any map of columns. Then both requests end in the same fault, or
both are translated. In that case the SQL is the same, and so are, node by node, the SQL and the
letters, names and errors of the ranges. -/
theorem translate_alike_of_rowless {columns a b : Value}
    (h : (Formula.ofValue a).rowless = (Formula.ofValue b).rowless) :
    (∃ fault, translateRequest (.object [("ast", a), ("columns", columns)]) = .error fault
        ∧ translateRequest (.object [("ast", b), ("columns", columns)]) = .error fault)
      ∨ ∃ t u, translateRequest (.object [("ast", a), ("columns", columns)]) = .ok t
        ∧ translateRequest (.object [("ast", b), ("columns", columns)]) = .ok u
        ∧ t.sql = u.sql
        ∧ List.Forall₂ (fun n m => n.sql = m.sql ∧ n.covered? = m.covered?) t.nodes u.nodes := by
  have hrequest (ast : Value) : translateRequest (.object [("ast", ast), ("columns", columns)]) =
      (Formula.ofValue ast).translate columns := rfl
  have hsame : ((Formula.ofValue a).translate columns).map Translated.rowless =
      ((Formula.ofValue b).translate columns).map Translated.rowless := by
    rw [← Formula.translate_rowless, ← Formula.translate_rowless, h]
  rw [hrequest, hrequest]
  cases ha : (Formula.ofValue a).translate columns with
  | error fault =>
    cases hb : (Formula.ofValue b).translate columns with
    | error other =>
      rw [ha, hb] at hsame
      exact .inl ⟨fault, rfl, by rw [Except.error.inj hsame]⟩
    | ok u =>
      rw [ha, hb] at hsame
      exact absurd hsame error_ne_ok
  | ok t =>
    cases hb : (Formula.ofValue b).translate columns with
    | error fault =>
      rw [ha, hb] at hsame
      exact absurd hsame.symm error_ne_ok
    | ok u =>
      rw [ha, hb] at hsame
      have htu : t.rowless = u.rowless := Except.ok.inj hsame
      refine .inr ⟨t, u, rfl, rfl, ?_, ?_⟩
      · rw [← t.sql_rowless, htu, u.sql_rowless]
      · -- the nodes correspond, and without rows they are the same
        have hnodes : List.Forall₂ (· = ·) (t.nodes.map Translated.rowless)
            (u.nodes.map Translated.rowless) := by
          rw [List.forall₂_eq_eq_eq, ← Translated.nodes_rowless, htu, Translated.nodes_rowless]
        rw [List.forall₂_map_left_iff, List.forall₂_map_right_iff] at hnodes
        refine hnodes.imp fun n m hnm => ⟨?_, ?_⟩
        · rw [← n.sql_rowless, hnm, m.sql_rowless]
        · rw [← n.covered?_rowless, hnm, m.covered?_rowless]

/-- `IF(SUM(first:last) > limit, net, "none")` -/
def limitAst (first last limit net : Value) : Value :=
  Example.call "IF" [Example.binary ">" (Example.call "SUM" [.object [("type", .str "cell-range"),
    ("left", first), ("right", last)]]) limit, net, Example.text "none"]

def firstRowAst : Value :=
  limitAst (Example.cell "relative" "A1") (Example.cell "relative" "C1") (Example.cell "absolute" "$B$1")
    (Example.cell "relative" "A1")

def laterRowAst : Value :=
  limitAst (Example.cell "mixed" "$A98") (Example.cell "mixed" "C$98") (Example.cell "relative" "B98")
    (Example.cell "absolute" "$A$98")

set_option maxRecDepth 20000 in
/-- Both have one SQL, and their ranges one error: there is no name for the third column. -/
theorem rows_translate_alike :
    (Formula.ofValue firstRowAst).rowless = (Formula.ofValue laterRowAst).rowless
      ∧ ∃ t u, translateRequest (.object [("ast", firstRowAst), ("columns", priceNames)]) = .ok t
        ∧ translateRequest (.object [("ast", laterRowAst), ("columns", priceNames)]) = .ok u
        ∧ t.sql = .ok (.str "CASE WHEN () > (gross) THEN net ELSE 'none' END") ∧ t.sql = u.sql
        ∧ List.Forall₂ (fun n m => n.sql = m.sql ∧ n.covered? = m.covered?) t.nodes u.nodes
        ∧ ∃ n ∈ t.nodes, n.covered? = some (["A", "B", "C"], [], some "KeyError('C')") := by
  have hrowless : (Formula.ofValue firstRowAst).rowless = (Formula.ofValue laterRowAst).rowless := by
    with_unfolding_all rfl
  let net := Translated.cell "A1" (.str "relative") (.str "net") none
  let range := Translated.range "A1" "C1" ["A", "B", "C"] [] (some "KeyError('C')")
  let test := Translated.binary (.str ">") (.call "SUM" [range] "")
    (.cell "B1" (.str "absolute") (.str "gross") none) "() > (gross)"
  have hfirst : translateRequest (.object [("ast", firstRowAst), ("columns", priceNames)]) =
      .ok (.call "IF" [test, net, .text "none" "'none'"]
        "CASE WHEN () > (gross) THEN net ELSE 'none' END") := by
    with_unfolding_all rfl
  refine ⟨hrowless, ?_⟩
  rcases @translate_alike_of_rowless priceNames _ _ hrowless with
    ⟨fault, hfault, -⟩ | ⟨t, u, ht, hu, hsql, hnodes⟩
  · rw [hfirst] at hfault
    exact absurd hfault.symm error_ne_ok
  · obtain rfl := Except.ok.inj (hfirst.symm.trans ht)
    refine ⟨_, u, hfirst, hu, rfl, hsql, hnodes, range, ?_, rfl⟩
    simp [Translated.nodes, Translated.nodesOfAll, test, range]

end SheetIntake
