import SheetIntake.Proofs.Composition
import SheetIntake.Proofs.FormulaCells
import SheetIntake.Proofs.WellFormedDefinitions

/-!
# The references of a formula on its way to a script

A cell is translated to the name of its column. A cell whose column has no name is translated to the
empty name, with an error that nothing reads. What becomes of it is settled only when the names are
collected again from the translation: they are those of the cells of the formula, wherever a cell
stands and whether or not it got into the SQL.

* **`collected_iff_cell_column`** — the names collected from a translation without ranges are the
  columns of the cells of its formula.
* **`cells_resolved_of_script`** — a family of formulas with a script has no cell without a column of
  the family.
-/

namespace SheetIntake

open Outcome

namespace Formula

/-! ## Cells and references -/

/-- The column that a cell is translated to. -/
def cellColumn (columns : Value) (c : Field × Field) : Except Fault Value := do
  let (_, _, column, _) ← translateCell columns c.1 c.2
  return column

theorem cellColumn_eq_ok {columns v : Value} {c : Field × Field} :
    cellColumn columns c = .ok v ↔ ∃ key way error, c = (.ok (.str key), .ok way)
      ∧ columnName columns (Columns.ofCell key) = .ok (v, error) := by
  simp only [cellColumn, bind_eq_ok, pure_eq_ok, translateCell_eq_ok, Columns.ofCell_unmarked]
  grind

section Translation

variable {columns : Value} {f : Formula} {t : Translated}

theorem hasRange_translate (h : translate columns f = .ok t) : t.hasRange = false ↔ f.ranges = [] := by
  refine translateInduction ?binary ?call ?range ?cell ?number ?logical ?text h
  case binary =>
    intro _ _ _ _ _ _ _ hl hr _ _
    rw [Translated.hasRange_binary, Bool.or_eq_false_iff, hl, hr, ranges, List.append_eq_nil_iff]
  case call =>
    intro _ _ _ _ hpairs hsql
    clear hsql
    rw [Translated.hasRange_call, List.any_eq_false, ranges, rangesOfAll_eq, List.flatMap_eq_nil_iff]
    induction hpairs with
    | nil => simp
    | cons hft _ ih => rw [List.forall_mem_cons, List.forall_mem_cons, ih, Bool.not_eq_true, hft]
  case range =>
    exact fun _ _ _ _ _ _ _ => iff_of_false Bool.true_eq_false.mp (List.cons_ne_nil _ _)
  case cell => exact fun _ _ _ _ _ => iff_of_true rfl rfl
  case number => exact fun _ _ _ => iff_of_true rfl rfl
  case logical | text => exact fun _ => iff_of_true rfl rfl

/-- Without ranges, the references of a translation are the columns of the cells. The SQL plays no
part here: cells that a function leaves out of its SQL are references like all others. -/
theorem references_translate (hranges : f.ranges = []) (h : translate columns f = .ok t) :
    List.Forall₂ (fun c v => cellColumn columns c = .ok v) f.cells t.references := by
  revert hranges
  refine translateInduction ?binary ?call ?range ?cell ?number ?logical ?text h
  case binary =>
    intro _ _ _ _ _ _ _ hl hr _ _ hranges
    obtain ⟨hleft, hright⟩ := List.append_eq_nil_iff.mp hranges
    rw [cells, Translated.references_binary]
    exact List.rel_append (hl hleft) (hr hright)
  case call =>
    intro _ _ _ _ hpairs _ hranges
    rw [ranges, rangesOfAll_eq, List.flatMap_eq_nil_iff] at hranges
    rw [cells, cellsOfAll_eq, Translated.references_call]
    have hpairs := (List.forall₂_and_left _ _).mpr ⟨hranges, hpairs⟩
    exact List.rel_flatMap hpairs fun f t hft => hft.2 hft.1
  case range => exact fun _ _ _ _ _ _ _ hranges => absurd hranges (List.cons_ne_nil _ _)
  case cell =>
    exact fun key kind _ error h _ => .cons (cellColumn_eq_ok.mpr ⟨key, kind, error, rfl, h⟩) .nil
  case number => exact fun _ _ _ _ => .nil
  case logical | text => exact fun _ _ => .nil

theorem mem_references_iff (hranges : f.ranges = []) (h : translate columns f = .ok t) {v : Value} :
    v ∈ t.references ↔ ∃ c ∈ f.cells, cellColumn columns c = .ok v :=
  mem_of_mapM_eq_ok (mapM_eq_ok.mpr (references_translate hranges h))

end Translation

end Formula

/-! ## Maps of columns -/

def columnMap (names : List (String × String)) : Value :=
  .object (names.map (fun e => (e.1, .str e.2)))

def mappedName (names : List (String × String)) (key : String) : String :=
  (Assoc.get? (Columns.ofCell key) names).getD ""

theorem member_columnMap (names : List (String × String)) (letters : String) :
    (columnMap names).member letters = match Assoc.get? letters names with
      | some name => .ok (.str name)
      | none => .error (.missing (.str letters)) := by
  rw [columnMap, Value.member, Assoc.get?_map (fun _ => Value.str)]
  cases Assoc.get? letters names <;> rfl

theorem cellColumn_columnMap {names : List (String × String)} {c : Field × Field} {v : Value} :
    Formula.cellColumn (columnMap names) c = .ok v ↔
      ∃ key way, c = (.ok (.str key), .ok way) ∧ v = .str (mappedName names key) := by
  have hname (key : String) :
      (∃ error, Formula.columnName (columnMap names) (Columns.ofCell key) = .ok (v, error)) ↔
        v = .str (mappedName names key) := by
    rw [Formula.columnName, member_columnMap, mappedName]
    cases Assoc.get? (Columns.ofCell key) names <;> simp [eq_comm]
  simp only [Formula.cellColumn_eq_ok, exists_and_left, hname]

theorem mem_references_columnMap {names : List (String × String)} {f : Formula} {t : Translated}
    (hranges : f.ranges = []) (h : f.translate (columnMap names) = .ok t) {v : Value} :
    v ∈ t.references ↔
      ∃ key way, (Except.ok (Value.str key), Except.ok way) ∈ f.cells
        ∧ v = .str (mappedName names key) := by
  rw [Formula.mem_references_iff hranges h]
  simp only [cellColumn_columnMap]
  grind

/-! ## What is collected from a translation -/

namespace Translated

variable {t : Translated}

theorem kind_definition (t : Translated) : DefinitionKind.of? t.definition ≠ some .range := by
  cases t <;> simp [definition, DefinitionKind.of?]

theorem wellFormed_definition (hrange : t.hasRange = false)
    (hnames : ∀ v ∈ t.references, ∃ name, v = .str name) : t.definition.WellFormed := by
  induction t using treeInduction with
  | binary operator left right sql ihleft ihright =>
    rw [hasRange_binary, Bool.or_eq_false_iff] at hrange
    rw [references_binary, List.forall_mem_append] at hnames
    exact .binary (ihleft hrange.1 hnames.1) (ihright hrange.2 hnames.2)
  | call name arguments sql ih =>
    rw [hasRange_call, List.any_eq_false] at hrange
    rw [references_call] at hnames
    rw [definition, definitions_eq]
    refine .call fun d hd => ?_
    obtain ⟨t, ht, rfl⟩ := List.mem_map.mp hd
    have hargument : ∀ v ∈ t.references, ∃ name, v = .str name :=
      fun v hv => hnames v (List.mem_flatMap.mpr ⟨t, ht, hv⟩)
    exact ih t ht (by simpa using hrange t ht) hargument
  | range => exact absurd hrange Bool.true_eq_false.mp
  | cell cell refKind column error =>
    obtain ⟨name, rfl⟩ := hnames column (List.mem_singleton_self column)
    exact .cell name
  | number | logical | text => exact .constant

theorem exists_collected (hrange : t.hasRange = false)
    (hnames : ∀ v ∈ t.references, ∃ name, v = .str name) :
    ∃ found : List String, t.definition.columns = .ok (.list (found.map .str)) ∧ found.Nodup
      ∧ ∀ name, name ∈ found ↔ Value.str name ∈ t.references := by
  obtain ⟨found, hcolumns, hfound, hnodup⟩ := (wellFormed_definition hrange hnames).exists_names
  refine ⟨found, hcolumns, hnodup (kind_definition t), fun name => ?_⟩
  rw [hfound, mentions_definition_iff hrange]

end Translated

/-- Take any formula without ranges, whatever its functions, and any map of columns under which it is
translated. Then all its cells have their fields, and the names that are collected from the
translation are the names of the columns of these cells, the empty name standing for a column that is
not in the map. No name is collected twice. -/
theorem collected_iff_cell_column {ast : Value} {names : List (String × String)} {t : Translated}
    (hranges : (Formula.ofValue ast).ranges = [])
    (h : translateRequest (.object [("ast", ast), ("columns", columnMap names)]) = .ok t) :
    (∀ c ∈ (Formula.ofValue ast).cells, Formula.Usable c)
      ∧ ∃ found : List String,
        (Definition.ofValue t.toValue).columns = .ok (.list (found.map .str))
        ∧ found.Nodup
        ∧ ∀ name, name ∈ found ↔
          ∃ key way, (Except.ok (Value.str key), Except.ok way) ∈ (Formula.ofValue ast).cells
            ∧ (Assoc.get? (Columns.ofCell key) names).getD "" = name := by
  have ht : (Formula.ofValue ast).translate (columnMap names) = .ok t := h
  have hreferences {v : Value} := mem_references_columnMap (v := v) hranges ht
  have hnames : ∀ v ∈ t.references, ∃ name, v = .str name := by
    intro v hv
    obtain ⟨key, way, -, hv⟩ := hreferences.mp hv
    exact ⟨mappedName names key, hv⟩
  obtain ⟨found, hcolumns, hnodup, hfound⟩ :=
    Translated.exists_collected ((Formula.hasRange_translate ht).mpr hranges) hnames
  refine ⟨Formula.usable_of_translate ht, found, ?_, hnodup, fun name => ?_⟩
  · rw [Translated.ofValue_toValue, hcolumns]
  · rw [hfound, hreferences]
    simp only [Value.str.injEq, eq_comm, mappedName]

/-- Two letters have the same name, and `Z` has none. -/
def surplusNames : List (String × String) :=
  [("A", "net"), ("B", "gross"), ("C", "net")]

/-- `IF(B2 > $B$7, ROUND(Z9), "none", A1 * C3)` -/
def surplusFormula : Value :=
  Example.call "IF"
    [Example.binary ">" (Example.cell "relative" "B2") (Example.cell "absolute" "$B$7"),
     Example.call "ROUND" [Example.cell "relative" "Z9"], Example.text "none",
     Example.binary "*" (Example.cell "relative" "A1") (Example.cell "relative" "C3")]

/-- Its translation. Neither the argument of `ROUND` nor the fourth argument of `IF` is in the SQL. -/
def surplusTranslated : Translated :=
  let cell (name refKind column : String) := Translated.cell name (.str refKind) (.str column)
  .call "IF"
    [.binary (.str ">") (cell "B2" "relative" "gross" none) (cell "B7" "absolute" "gross" none)
      "(gross) > (gross)",
     .call "ROUND" [cell "Z9" "relative" "" (some "KeyError('Z')")] "UNSUPPORTED_FUNCTION(ROUND)",
     .text "none" "'none'",
     .binary (.str "*") (cell "A1" "relative" "net" none) (cell "C3" "relative" "net" none)
      "(net) * (net)"]
    "CASE WHEN (gross) > (gross) THEN UNSUPPORTED_FUNCTION(ROUND) ELSE 'none' END"

set_option maxRecDepth 20000 in
theorem translate_surplus :
    translateRequest (.object [("ast", surplusFormula), ("columns", columnMap surplusNames)]) =
      .ok surplusTranslated := by
  with_unfolding_all rfl

theorem cells_surplus : (Formula.ofValue surplusFormula).cells =
      [("B2", "relative"), ("$B$7", "absolute"), ("Z9", "relative"), ("A1", "relative"),
        ("C3", "relative")].map (fun c => (.ok (.str c.1), .ok (.str c.2))) := by
  with_unfolding_all rfl

set_option maxRecDepth 20000 in
theorem mappedName_surplus : ["B2", "$B$7", "Z9", "A1", "C3"].map (mappedName surplusNames) =
      ["gross", "gross", "", "net", "net"] := by
  with_unfolding_all rfl

/-- The names of all five cells are collected, those left out of the SQL too. -/
theorem collected_of_surplus :
    (Formula.ofValue surplusFormula).ranges = []
      ∧ translateRequest (.object [("ast", surplusFormula), ("columns", columnMap surplusNames)]) =
        .ok surplusTranslated
      ∧ ∃ found : List String,
        (Definition.ofValue surplusTranslated.toValue).columns = .ok (.list (found.map .str))
        ∧ found.Nodup
        ∧ ∀ name, name ∈ found ↔ name ∈ ["gross", "", "net"] := by
  have hranges : (Formula.ofValue surplusFormula).ranges = [] := by with_unfolding_all rfl
  obtain ⟨-, found, hcolumns, hnodup, hfound⟩ :=
    collected_iff_cell_column hranges translate_surplus
  refine ⟨hranges, translate_surplus, found, hcolumns, hnodup, fun name => ?_⟩
  have hmapped : name ∈ ["gross", "gross", "", "net", "net"] ↔ name ∈ ["gross", "", "net"] := by simp
  rw [hfound, cells_surplus, ← hmapped, ← mappedName_surplus]
  simp [mappedName, eq_comm, exists_or, or_and_right]

/-! ## Families with a script -/

variable {family : List (String × Translated)}

/-- Where there is a graph, no formula of the family holds a range and every name it refers to is one
of the family. -/
theorem DependencyGraph.references_of_ofColumns {g : DependencyGraph}
    (hg : ofColumns (family.map Column.ofTranslated) = .ok g) {f : String × Translated}
    (hf : f ∈ family) :
    f.2.hasRange = false ∧ ∀ name, Value.str name ∈ f.2.references → name ∈ family.map Prod.fst := by
  have hcolumn : Column.ofTranslated f ∈ family.map Column.ofTranslated := List.mem_map_of_mem hf
  obtain ⟨v, hv⟩ := exists_columns_of_ofColumns hg hcolumn
  have hrange : f.2.hasRange = false := Translated.hasRange_eq_false_of_columns hv
  refine ⟨hrange, fun name hname => ?_⟩
  have hmention := (Translated.mentions_definition_iff hrange).mpr hname
  have hedge : (f.1, name) ∈ g.edges := (mem_edges hg).mpr ⟨_, hcolumn, rfl, hmention⟩
  rw [← Column.names_ofTranslated, ← names_of_ofColumns hg]
  exact (mem_names_of_mem_edges hg hedge).2

section

variable {columns : Value} {formulas : List (String × Value)}
  (h : translateFamily columns formulas = .ok family)

include h

theorem names_of_translateFamily : family.map Prod.fst = formulas.map Prod.fst := by
  rw [translateFamily, mapM_eq_ok] at h
  induction h with
  | nil => rfl
  | @cons f e formulas family hf _ ih =>
    obtain ⟨t, -, he⟩ := bind_eq_ok.mp hf
    rw [List.map_cons, List.map_cons, ih, ← pure_eq_ok.mp he]

theorem exists_translated {f : String × Value} (hf : f ∈ formulas) :
    ∃ t, (Formula.ofValue f.2).translate columns = .ok t ∧ (f.1, t) ∈ family := by
  obtain ⟨e, he, hfe⟩ := exists_of_mapM_eq_ok h hf
  obtain ⟨t, ht, hpair⟩ := bind_eq_ok.mp hfe
  obtain rfl := pure_eq_ok.mp hpair
  exact ⟨t, ht, he⟩

theorem exists_formula_of_mem {e : String × Translated} (he : e ∈ family) :
    ∃ f ∈ formulas, f.1 = e.1 ∧ (Formula.ofValue f.2).translate columns = .ok e.2 := by
  obtain ⟨f, hf, hfe⟩ := (mem_of_mapM_eq_ok h).mp he
  obtain ⟨t, ht, hpair⟩ := bind_eq_ok.mp hfe
  obtain rfl := pure_eq_ok.mp hpair
  exact ⟨f, hf, rfl, ht⟩

end

/-- Take any family of formulas in which no column has the empty name, any map of columns, any types
and any name of the table. If all formulas are translated and there is a script for them, then every
cell anywhere in a formula has its letters in the map, and they stand for a column of the family. -/
theorem cells_resolved_of_script {names : List (String × String)} {formulas : List (String × Value)}
    {types : Value} {table : String} {script : Script} (hempty : "" ∉ formulas.map Prod.fst)
    (h : (do Script.ofTranslated (← translateFamily (columnMap names) formulas) types table) =
      Except.ok script) :
    ∀ f ∈ formulas, ∀ c ∈ (Formula.ofValue f.2).cells,
      ∃ key way name, c = (.ok (.str key), .ok way)
        ∧ Assoc.get? (Columns.ofCell key) names = some name ∧ name ∈ formulas.map Prod.fst := by
  intro f hf c hc
  obtain ⟨family, hfamily, hscript⟩ := bind_eq_ok.mp h
  rw [Script.ofTranslated, Script.ofColumns, Column.ofValue_family, ok_bind] at hscript
  obtain ⟨graph, hgraph, -⟩ := bind_eq_ok.mp hscript
  obtain ⟨e, he, hfe⟩ := exists_of_mapM_eq_ok hfamily hf
  obtain ⟨t, ht, hpair⟩ := bind_eq_ok.mp hfe
  obtain rfl := pure_eq_ok.mp hpair
  obtain ⟨hrange, hreferences⟩ := DependencyGraph.references_of_ofColumns hgraph he
  obtain ⟨key, way, rfl⟩ := Formula.usable_of_translate ht c hc
  have hmapped : mappedName names key ∈ formulas.map Prod.fst := by
    rw [← names_of_translateFamily hfamily]
    apply hreferences
    exact (mem_references_columnMap ((Formula.hasRange_translate ht).mp hrange) ht).mpr
      ⟨key, way, hc, rfl⟩
  -- a column without a name would be the empty name, which is none of the family
  cases hget : Assoc.get? (Columns.ofCell key) names with
  | none =>
    rw [mappedName, hget] at hmapped
    exact absurd hmapped hempty
  | some name =>
    rw [mappedName, hget] at hmapped
    exact ⟨key, way, name, rfl, hget, hmapped⟩

def priceLetters : List (String × String) :=
  [("A", "net"), ("B", "gross")]

/-- The cells of the rated formulas, inside functions and with marks, have their columns. -/
theorem rated_cells_resolved :
    "" ∉ ratedFormulas.map Prod.fst
      ∧ (∃ script,
          (do Script.ofTranslated (← translateFamily (columnMap priceLetters) ratedFormulas)
                priceTypes "t") = Except.ok script)
      ∧ ∀ f ∈ ratedFormulas, ∀ c ∈ (Formula.ofValue f.2).cells,
        ∃ key way name, c = (.ok (.str key), .ok way)
          ∧ Assoc.get? (Columns.ofCell key) priceLetters = some name
          ∧ name ∈ ratedFormulas.map Prod.fst := by
  have hempty : "" ∉ ratedFormulas.map Prod.fst := by decide
  have hacyclic : ∀ a, ¬ Relation.TransGen (RefersTo ratedFamily) a a :=
    no_cycle_of_length (by decide)
  obtain ⟨script, hscript⟩ :=
    settled_rated.exists_ofTranslated_eq_ok hacyclic typed_rated (by decide) "t"
  have hsteps :
      (do Script.ofTranslated (← translateFamily (columnMap priceLetters) ratedFormulas)
            priceTypes "t") = Except.ok script :=
    bind_eq_ok.mpr ⟨ratedFamily, translateFamily_rated, hscript⟩
  exact ⟨hempty, ⟨script, hsteps⟩, cells_resolved_of_script hempty hsteps⟩

end SheetIntake
