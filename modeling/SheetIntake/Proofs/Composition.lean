import SheetIntake.Ddl.Example
import SheetIntake.Proofs.Acyclicity
import SheetIntake.Proofs.ScriptLayout

/-!
# From translated formulas to a script

A family of formulas is translated, and its translations are read as the definitions of columns.
The two sides name the kinds of nodes on their own, and agree on all but one: a translated range is
of the kind `cell-range`, which is no kind of a definition.

* `Translated.ofValue_toValue` — what each node is read as.
* `script_of_formulas_iff` — a family whose references are settled has a script exactly when none of
  its formulas holds a range.
-/

namespace SheetIntake

open DependencyGraph (edge_eq_ok ofColumns mem_edges)
open Definition (ofValue ofEach ofMembers ofItems exists_distinct columnsOfAll)
open Outcome

namespace Translated

/-! ## The nodes of a translated formula -/

@[elab_as_elim]
theorem treeInduction {P : Translated → Prop}
    (binary : ∀ operator left right sql, P left → P right → P (.binary operator left right sql))
    (call : ∀ name arguments sql, (∀ t ∈ arguments, P t) → P (.call name arguments sql))
    (range : ∀ first last letters columns error, P (.range first last letters columns error))
    (cell : ∀ name refKind column error, P (.cell name refKind column error))
    (number : ∀ value sql, P (.number value sql)) (logical : ∀ value, P (.logical value))
    (text : ∀ value sql, P (.text value sql)) (t : Translated) : P t :=
  @Translated.rec P (fun ts => ∀ t ∈ ts, P t) binary call range cell number logical text
    (List.forall_mem_nil _)
    (fun _ _ ht hts => List.forall_mem_cons.mpr ⟨ht, hts⟩) t

mutual

def nodes : Translated → List Translated
  | .binary operator left right sql => .binary operator left right sql :: (nodes left ++ nodes right)
  | .call name arguments sql => .call name arguments sql :: nodesOfAll arguments
  | .range first last letters columns error => [.range first last letters columns error]
  | .cell name refKind column error => [.cell name refKind column error]
  | .number value sql => [.number value sql]
  | .logical value => [.logical value]
  | .text value sql => [.text value sql]

def nodesOfAll : List Translated → List Translated
  | [] => []
  | t :: rest => nodes t ++ nodesOfAll rest

end

def names : Translated → List Value
  | .range _ _ _ columns _ => columns
  | .cell _ _ column _ => [column]
  | _ => []

def isRange : Translated → Bool
  | .range .. => true
  | _ => false

def error? : Translated → Option String
  | .range _ _ _ _ error => error
  | .cell _ _ _ error => error
  | _ => none

def references (t : Translated) : List Value :=
  t.nodes.flatMap names

def hasRange (t : Translated) : Bool :=
  t.nodes.any isRange

theorem nodesOfAll_eq (ts : List Translated) : nodesOfAll ts = ts.flatMap nodes := by
  induction ts with
  | nil => rfl
  | cons t ts ih => rw [nodesOfAll, ih, List.flatMap_cons]

@[simp]
theorem references_binary (operator : Value) (left right : Translated) (sql : String) :
    (binary operator left right sql).references = left.references ++ right.references := by
  simp [references, nodes, names]

@[simp]
theorem references_call (name : String) (arguments : List Translated) (sql : String) :
    (call name arguments sql).references = arguments.flatMap references := by
  rw [references, nodes, List.flatMap_cons, nodesOfAll_eq, List.flatMap_assoc]
  rfl

@[simp]
theorem hasRange_binary (operator : Value) (left right : Translated) (sql : String) :
    (binary operator left right sql).hasRange = (left.hasRange || right.hasRange) := by
  simp [hasRange, nodes, isRange]

@[simp]
theorem hasRange_call (name : String) (arguments : List Translated) (sql : String) :
    (call name arguments sql).hasRange = arguments.any hasRange := by
  rw [hasRange, nodes, List.any_cons, nodesOfAll_eq, List.any_flatMap]
  rfl

/-! ## What a translated formula is read as -/

mutual

def definition : Translated → Definition
  | .binary _ left right _ => .binary (definition left) (definition right)
  | .call _ arguments _ => .call (definitions arguments)
  | .range .. => .unknown (.str NodeKind.range.name)
  | .cell _ _ column _ => .cell (.ok column)
  | .number .. => .constant
  | .logical _ => .constant
  | .text .. => .constant

def definitions : List Translated → List Definition
  | [] => []
  | t :: rest => definition t :: definitions rest

end

theorem definitions_eq (ts : List Translated) : definitions ts = ts.map definition := by
  induction ts with
  | nil => rfl
  | cons t ts ih => rw [definitions, ih, List.map_cons]

section

attribute [local simp] toValue ofValue ofMembers Assoc.get? definition Value.member

mutual

theorem ofValue_toValue : ∀ t : Translated, ofValue t.toValue = t.definition
  | .binary operator left right sql => by
    simp [ofEach, ofValue_toValue left, ofValue_toValue right]
  | .call name arguments sql => by
    simp [ofEach, Definition.sequenceOf, ofItems_toValues arguments]
  | .range .. => by simp [NodeKind.name]
  | .cell .. | .number .. | .logical _ | .text .. => by simp

theorem ofItems_toValues : ∀ ts : List Translated, ofItems (toValues ts) = definitions ts
  | [] => by rw [toValues, ofItems, definitions]
  | t :: ts => by
    rw [toValues, ofItems, definitions, ofValue_toValue t, ofItems_toValues ts]

end

theorem member_sql_toValue (t : Translated) : t.toValue.member "sql" = t.sql := by
  cases t <;> simp [sql]

end

/-! ## The names that are collected -/

/-- The fault that the name of a range's kind gives as the kind of a definition. -/
def rangeFault : Fault :=
  .missing (.str NodeKind.range.name)

mutual

/-- The names collected from a translated formula are references of it, unless there is a range: then
none are collected. -/
theorem columns_definition : ∀ {t : Translated}, (∀ v ∈ t.references, v.isKey) →
    (t.hasRange ∧ t.definition.columns = .error rangeFault)
      ∨ (t.hasRange = false ∧ ∃ items, t.definition.columns = .ok (.list items)
          ∧ ∀ v ∈ items, v ∈ t.references)
  | .binary operator left right sql, hkeys => by
    rw [references_binary] at hkeys
    have hleft (v) (hv : v ∈ left.references) : v.isKey := hkeys v (List.mem_append_left _ hv)
    have hright (v) (hv : v ∈ right.references) : v.isKey :=
      hkeys v (List.mem_append_right _ hv)
    rw [hasRange_binary, references_binary, definition, Definition.columns]
    -- the left side comes first, but a range gives the same fault on both
    rcases columns_definition hleft with ⟨hl, hcl⟩ | ⟨hl, ls, hcl, hls⟩
    · exact .inl ⟨by simp [hl], by rw [hcl, error_bind]⟩
    rcases columns_definition hright with ⟨hr, hcr⟩ | ⟨hr, rs, hcr, hrs⟩
    · exact .inl ⟨by simp [hr], by rw [hcl, ok_bind, hcr, error_bind]⟩
    -- neither side holds a range: both give their names
    obtain ⟨ls', hdl, hls'⟩ := exists_distinct (fun v hv => hleft v (hls v hv))
    obtain ⟨rs', hdr, hrs'⟩ := exists_distinct (fun v hv => hright v (hrs v hv))
    refine .inr ⟨by simp [hl, hr], Definition.withoutRepeats (ls' ++ rs'), ?_, ?_⟩
    · rw [hcl, ok_bind, hcr, ok_bind, Value.elements, ok_bind, hdl, ok_bind, Value.elements, ok_bind, hdr]
      rfl
    · intro v hv
      rcases List.mem_append.mp (Definition.mem_of_mem_withoutRepeats hv) with hv | hv
      · exact List.mem_append_left _ (hls v (hls' v hv))
      · exact List.mem_append_right _ (hrs v (hrs' v hv))
  | .call name arguments sql, hkeys => by
    rw [references_call] at hkeys
    rw [hasRange_call, references_call, definition, Definition.columns]
    rcases columnsOfAll_definitions hkeys with ⟨hrange, hcolumns⟩ | ⟨hrange, items, hcolumns, hitems⟩
    · exact .inl ⟨hrange, by rw [hcolumns, error_bind]⟩
    · obtain ⟨ws, hdistinct, hws⟩ := exists_distinct (fun v hv => hkeys v (hitems v hv))
      refine .inr ⟨hrange, ws, ?_, fun w hw => hitems w (hws w hw)⟩
      rw [hcolumns, ok_bind, hdistinct]
      rfl
  | .range .., _ => .inl ⟨rfl, rfl⟩
  | .cell _ _ column _, _ => .inr ⟨rfl, [column], rfl, fun _ hv => hv⟩
  | .number .., _ | .logical _, _ | .text .., _ => .inr ⟨rfl, [], rfl, nofun⟩

theorem columnsOfAll_definitions : ∀ {ts : List Translated},
    (∀ v ∈ ts.flatMap references, v.isKey) →
      (ts.any hasRange ∧ columnsOfAll (definitions ts) = .error rangeFault)
        ∨ (ts.any hasRange = false ∧ ∃ items, columnsOfAll (definitions ts) = .ok items
            ∧ ∀ v ∈ items, v ∈ ts.flatMap references)
  | [], _ => .inr ⟨rfl, [], rfl, nofun⟩
  | t :: ts, hkeys => by
    rw [List.flatMap_cons] at hkeys ⊢
    have hfirst (v) (hv : v ∈ t.references) : v.isKey := hkeys v (List.mem_append_left _ hv)
    have hothers (v) (hv : v ∈ ts.flatMap references) : v.isKey :=
      hkeys v (List.mem_append_right _ hv)
    rw [List.any_cons, definitions, columnsOfAll]
    rcases columns_definition hfirst with ⟨ht, hc⟩ | ⟨ht, items, hc, hitems⟩
    · exact .inl ⟨by simp [ht], by rw [hc, error_bind]⟩
    rcases columnsOfAll_definitions hothers with ⟨hts, hcs⟩ | ⟨hts, others, hcs, hmem⟩
    · exact .inl ⟨by simp [hts], by rw [hc, ok_bind, Value.elements, ok_bind, hcs, error_bind]⟩
    · refine .inr ⟨by simp [ht, hts], items ++ others, ?_, ?_⟩
      · rw [hc, ok_bind, Value.elements, ok_bind, hcs]
        rfl
      · intro v hv
        rcases List.mem_append.mp hv with hv | hv
        · exact List.mem_append_left _ (hitems v hv)
        · exact List.mem_append_right _ (hmem v hv)

end

variable {t : Translated}

theorem hasRange_eq_false_of_columns {v : Value}
    (h : t.definition.columns = .ok v) : t.hasRange = false := by
  induction t using treeInduction generalizing v with
  | binary operator left right sql ihleft ihright =>
    obtain ⟨ls, hls, h⟩ := bind_eq_ok.mp h
    obtain ⟨rs, hrs, -⟩ := bind_eq_ok.mp h
    rw [hasRange_binary, ihleft hls, ihright hrs, Bool.or_false]
  | call name arguments sql ih =>
    rw [definition, Definition.columns, definitions_eq] at h
    obtain ⟨items, hitems, -⟩ := bind_eq_ok.mp h
    rw [hasRange_call, List.any_eq_false]
    intro t ht
    obtain ⟨w, hw⟩ := Definition.exists_columns_of_columnsOfAll hitems (List.mem_map_of_mem ht)
    simp [ih t ht hw]
  | range => cases h
  | cell | number | logical | text => rfl

theorem exists_sql (h : t.hasRange = false) : ∃ sql, t.sql = .ok sql := by
  cases t with
  | range => cases h
  | _ => exact ⟨_, rfl⟩

theorem mentions_definition_iff (hrange : t.hasRange = false) {name : String} :
    t.definition.Mentions name ↔ Value.str name ∈ t.references := by
  induction t using treeInduction with
  | binary operator left right sql ihleft ihright =>
    rw [hasRange_binary, Bool.or_eq_false_iff] at hrange
    rw [definition, Definition.mentions_binary, ihleft hrange.1, ihright hrange.2, references_binary,
      List.mem_append]
  | call called arguments sql ih =>
    rw [hasRange_call, List.any_eq_false] at hrange
    have harguments : ∀ t ∈ arguments, t.definition.Mentions name ↔ Value.str name ∈ t.references :=
      fun t ht => ih t ht (by simpa using hrange t ht)
    simp only [definition, Definition.mentions_call, definitions_eq, references_call,
      List.mem_flatMap, List.mem_map, exists_exists_and_eq_and]
    exact exists_congr fun t => and_congr_right fun ht => harguments t ht
  | range => exact absurd hrange Bool.true_eq_false.mp
  | cell cell refKind column error =>
    rw [definition, Definition.mentions_cell, eq_comm]
    exact List.mem_singleton.symm
  | number | logical | text =>
    exact iff_of_false Definition.not_mentions_constant List.not_mem_nil

end Translated

/-! ## The columns of a family -/

def Column.ofTranslated (f : String × Translated) : Column :=
  { name := f.1, definition := f.2.definition, sql := f.2.sql }

/-- The references of a family are settled when each leads to a column of the family. -/
def Settled (family : List (String × Translated)) : Prop :=
  ∀ f ∈ family, ∀ v ∈ f.2.references, ∃ name ∈ family.map Prod.fst, v = .str name

/-- A column of a family refers to another when its formula does. -/
def RefersTo (family : List (String × Translated)) (a b : String) : Prop :=
  ∃ f ∈ family, f.1 = a ∧ Value.str b ∈ f.2.references

theorem Column.ofValue_family (family : List (String × Translated)) :
    Column.ofValue (.object (family.map (fun f => (f.1, f.2.toValue)))) =
      .ok (family.map Column.ofTranslated) := by
  rw [Column.ofValue, List.map_map]
  congr 2
  funext f
  simp [Column.ofMember, Column.ofTranslated, Translated.ofValue_toValue,
    Translated.member_sql_toValue]

theorem Column.names_ofTranslated (family : List (String × Translated)) :
    (family.map Column.ofTranslated).map Column.name = family.map Prod.fst := by
  rw [List.map_map]
  rfl

section Family

variable {family : List (String × Translated)}

theorem Settled.isKey (hsettled : Settled family) {f : String × Translated} (hf : f ∈ family) :
    ∀ v ∈ f.2.references, v.isKey := by
  intro v hv
  obtain ⟨name, -, rfl⟩ := hsettled f hf v hv
  rfl

/-- The edges of a column are found, unless there is a range in its formula. -/
theorem Settled.edgesOf (hsettled : Settled family) {f : String × Translated} (hf : f ∈ family) :
    (f.2.hasRange ∧ DependencyGraph.edgesOf (family.map Prod.fst) (.ofTranslated f) =
          .error Translated.rangeFault) ∨ (f.2.hasRange = false
        ∧ ∃ edges, DependencyGraph.edgesOf (family.map Prod.fst) (.ofTranslated f) = .ok edges) := by
  unfold DependencyGraph.edgesOf Column.ofTranslated
  rcases Translated.columns_definition (hsettled.isKey hf) with
    ⟨hrange, hcolumns⟩ | ⟨hrange, items, hcolumns, hitems⟩
  · exact .inl ⟨hrange, by rw [hcolumns, error_bind]⟩
  · refine .inr ⟨hrange, ?_⟩
    simp only [hcolumns, ok_bind]
    split
    · exact ⟨[], rfl⟩
    · apply exists_mapM_eq_ok
      intro v hv
      obtain ⟨name, hname, rfl⟩ := hsettled f hf v (hitems v hv)
      exact ⟨(f.1, name), edge_eq_ok.mpr ⟨name, hname, rfl, rfl⟩⟩

theorem Settled.ofTranslated_eq_error (hsettled : Settled family)
    (hrange : ∃ f ∈ family, f.2.hasRange) (types : Value) (table : String) :
    Script.ofTranslated family types table = .error Translated.rangeFault := by
  have hedges : (family.map Column.ofTranslated).mapM
      (DependencyGraph.edgesOf (family.map Prod.fst)) = .error Translated.rangeFault := by
    rw [List.mapM_map]
    apply mapM_eq_error
    · intro f hf
      rcases hsettled.edgesOf hf with ⟨-, herror⟩ | ⟨-, hedges⟩
      · exact .inr herror
      · exact .inl hedges
    · obtain ⟨f, hf, hrange⟩ := hrange
      rcases hsettled.edgesOf hf with ⟨-, herror⟩ | ⟨hnone, -⟩
      · exact ⟨f, hf, herror⟩
      · cases hrange.symm.trans hnone
  rw [Script.ofTranslated, Script.ofColumns, Column.ofValue_family, ok_bind,
    ofColumns, Column.names_ofTranslated, hedges]
  rfl

theorem Settled.exists_ofTranslated_eq_ok (hsettled : Settled family)
    (hacyclic : ∀ a, ¬ Relation.TransGen (RefersTo family) a a) {types : Value}
    (htypes : ∀ f ∈ family, Script.Typed types f.1) (hrange : ∀ f ∈ family, f.2.hasRange = false)
    (table : String) : ∃ script, Script.ofTranslated family types table = .ok script := by
  obtain ⟨edges, hedges⟩ : ∃ edges, (family.map Column.ofTranslated).mapM
      (DependencyGraph.edgesOf (family.map Prod.fst)) = .ok edges := by
    rw [List.mapM_map]
    apply exists_mapM_eq_ok
    intro f hf
    rcases hsettled.edgesOf hf with ⟨hsome, -⟩ | ⟨-, hedges⟩
    · cases hsome.symm.trans (hrange f hf)
    · exact hedges
  have hgraph : ofColumns (family.map Column.ofTranslated) =
      .ok { names := family.map Prod.fst, edges := edges.flatten } := by
    rw [DependencyGraph.ofColumns_eq_ok, Column.names_ofTranslated]
    exact ⟨edges, hedges, rfl⟩
  -- an edge of the graph is a reference of the family, so a cycle of edges is one of references
  have hedge (a b : String) (h : (a, b) ∈ edges.flatten) : RefersTo family a b := by
    obtain ⟨c, hc, rfl, hmention⟩ := (mem_edges hgraph).mp h
    obtain ⟨f, hf, rfl⟩ := List.mem_map.mp hc
    exact ⟨f, hf, rfl,
      (Translated.mentions_definition_iff (hrange f hf)).mp hmention⟩
  have htest := DependencyGraph.isAcyclic_of_no_cycle
    (g := { names := family.map Prod.fst, edges := edges.flatten })
    (fun a ha => hacyclic a (Relation.TransGen.mono hedge a a ha))
  rw [Script.ofTranslated, Script.ofColumns, Column.ofValue_family, ok_bind, hgraph, ok_bind]
  apply Script.exists_ofGraph_eq_ok htest
  · exact List.forall_mem_map.mpr htypes
  · exact List.forall_mem_map.mpr fun f hf _ => Translated.exists_sql (hrange f hf)

end Family

/-- A family of formulas that are translated, whose references are settled and have no cycle, and
whose columns have types, has a script exactly when there is no range in any of the formulas, and
otherwise ends in the fault of an unknown kind. Whether a range stands where it is summed makes no
difference. -/
theorem script_of_formulas_iff {names types : Value} {table : String}
    {formulas : List (String × Value)} {family : List (String × Translated)}
    (htranslated : translateFamily names formulas = .ok family) (hsettled : Settled family)
    (hacyclic : ∀ a, ¬ Relation.TransGen (RefersTo family) a a)
    (htypes : ∀ f ∈ family, Script.Typed types f.1) :
    ((∃ script, (do Script.ofTranslated (← translateFamily names formulas) types table) =
          Except.ok script)
        ↔ ∀ f ∈ family, f.2.hasRange = false)
      ∧ ((∃ f ∈ family, f.2.hasRange = true) →
        (do Script.ofTranslated (← translateFamily names formulas) types table) =
          Except.error (Fault.missing (.str "cell-range"))) := by
  rw [htranslated, ok_bind]
  refine ⟨⟨?_, ?_⟩, fun hrange => hsettled.ofTranslated_eq_error hrange types table⟩
  · rintro ⟨script, hscript⟩ f hf
    by_contra hrange
    have herror := hsettled.ofTranslated_eq_error ⟨f, hf, by simpa using hrange⟩ types table
    exact absurd (hscript.symm.trans herror) (by nofun)
  · exact fun hrange => hsettled.exists_ofTranslated_eq_ok hacyclic htypes hrange table

/-! ## Two families -/

def priceNames : Value :=
  .object [("A", .str "net"), ("B", .str "gross")]

def priceTypes : Value :=
  let integer : Value := .object [("type", .str "INTEGER")]
  .object [("net", integer), ("gross", integer), ("rating", integer)]

/-- `net = 7`, `gross = A1 + 2`, `rating = IF(AND($B$1 > A1), "high", "low")` -/
def ratedFormulas : List (String × Value) :=
  [("net", Example.number (.int 7)),
   ("gross", Example.binary "+" (Example.cell "relative" "A1") (Example.number (.int 2))),
   ("rating", Example.call "IF" [Example.call "AND"
      [Example.binary ">" (Example.cell "absolute" "$B$1") (Example.cell "relative" "A1")],
      Example.text "high", Example.text "low"])]

def ratedFamily : List (String × Translated) :=
  let net := Translated.cell "A1" (.str "relative") (.str "net") none
  let gross := Translated.cell "B1" (.str "absolute") (.str "gross") none
  let number (n : Int) := Translated.number ((Binary64.ofInt? n).getD .nan) (.int n)
  [("net", number 7),
   ("gross", .binary (.str "+") net (number 2) "(net) + (2)"),
   ("rating", .call "IF" [.call "AND" [.binary (.str ">") gross net "(gross) > (net)"] "(gross) > (net)",
      .text "high" "'high'", .text "low" "'low'"]
      "CASE WHEN (gross) > (net) THEN 'high' ELSE 'low' END")]

/-- `net = 7`, `gross = 9`, `rating = SUM(A1:B1)` -/
def summedFormulas : List (String × Value) :=
  [("net", Example.number (.int 7)), ("gross", Example.number (.int 9)),
   ("rating", Example.call "SUM" [.object [("type", .str "cell-range"),
      ("left", Example.cell "relative" "A1"), ("right", Example.cell "relative" "B1")]])]

def summedFamily : List (String × Translated) :=
  let number (n : Int) := Translated.number ((Binary64.ofInt? n).getD .nan) (.int n)
  [("net", number 7), ("gross", number 9),
   ("rating", .call "SUM" [.range "A1" "B1" ["A", "B"] [.str "net", .str "gross"] none]
      "net + gross")]

theorem no_cycle_of_length {family : List (String × Translated)}
    (h : ∀ f ∈ family, ∀ v ∈ f.2.references, v.text.length < f.1.length) (a : String) :
    ¬ Relation.TransGen (RefersTo family) a a := by
  apply no_cycle_of_rank String.length
  rintro a b ⟨f, hf, rfl, hb⟩
  exact h f hf (.str b) hb

theorem typed_price {name : String} (h : name ∈ ["net", "gross", "rating"]) :
    Script.Typed priceTypes name := by
  refine ⟨[("type", .str "INTEGER")], .str "INTEGER", ?_, rfl⟩
  simp only [List.mem_cons, List.not_mem_nil, or_false] at h
  rcases h with rfl | rfl | rfl <;> rfl

set_option maxRecDepth 20000 in
theorem translateFamily_rated : translateFamily priceNames ratedFormulas = .ok ratedFamily := by
  with_unfolding_all rfl

theorem settled_rated : Settled ratedFamily := by
  unfold Settled
  decide

theorem typed_rated : ∀ f ∈ ratedFamily, Script.Typed priceTypes f.1 :=
  fun _ hf => typed_price (List.mem_map_of_mem hf)

/-- The family without a range has a script. -/
theorem script_of_rated_formulas :
    (∀ f ∈ ratedFamily, f.2.hasRange = false)
      ∧ ∃ script, (do Script.ofTranslated (← translateFamily priceNames ratedFormulas) priceTypes "t") =
        Except.ok script := by
  have hrange : ∀ f ∈ ratedFamily, f.2.hasRange = false := by decide
  refine ⟨hrange, (script_of_formulas_iff translateFamily_rated settled_rated ?_ typed_rated).1.mpr
    hrange⟩
  exact no_cycle_of_length (by decide)

set_option maxRecDepth 20000 in
theorem translateFamily_summed : translateFamily priceNames summedFormulas = .ok summedFamily := by
  with_unfolding_all rfl

/-- The family that sums a range is translated with an SQL text for each column and without an error,
its references are settled and have no cycle, its columns have types, and there is no script. -/
theorem no_script_of_summed_formulas :
    translateFamily priceNames summedFormulas = .ok summedFamily
      ∧ (∀ f ∈ summedFamily, ∃ sql, f.2.sql = .ok sql)
      ∧ (∀ f ∈ summedFamily, ∀ t ∈ f.2.nodes, t.error? = none)
      ∧ Settled summedFamily
      ∧ (∀ a, ¬ Relation.TransGen (RefersTo summedFamily) a a)
      ∧ (∀ f ∈ summedFamily, Script.Typed priceTypes f.1)
      ∧ (do Script.ofTranslated (← translateFamily priceNames summedFormulas) priceTypes "t") =
        Except.error (Fault.missing (.str "cell-range")) := by
  have hsettled : Settled summedFamily := by
    unfold Settled
    decide
  refine ⟨translateFamily_summed, ?_, by decide, hsettled, no_cycle_of_length (by decide),
    fun _ hf => typed_price (List.mem_map_of_mem hf), ?_⟩
  · intro f hf
    simp only [summedFamily, List.mem_cons, List.not_mem_nil, or_false] at hf
    rcases hf with rfl | rfl | rfl <;> exact ⟨_, rfl⟩
  · rw [translateFamily_summed, ok_bind]
    exact hsettled.ofTranslated_eq_error (by decide) priceTypes "t"

end SheetIntake
