import SheetIntake.Proofs.ScriptExistence

/-!
# Every column at its level

The statements of a script are a partition of the family. The columns without edges are declared where
the table is created. All others have a statement of their own, in the group of their level, and the
level of a column is the number of edges that start at it.

* **`Script.levels_of_ofGraph`** — the groups of a script are those of the levels above zero.
* **`columns_introduced_once`** — the partition, with the level of a column in terms of what its
  definition mentions.
* **`generated_iff_mentions`** — the text of the script: which columns are in it as generated columns
  with their SQL, and which are not.
-/

namespace SheetIntake

open Outcome

namespace Script

variable {columns : List Column} {graph : DependencyGraph} {types : Value} {table : String}
  {script : Script}

/-- Columns that do not depend on themselves cannot all refer to columns of the family. -/
theorem created_ne_nil (hne : columns ≠ []) (hgraph : DependencyGraph.ofColumns columns = .ok graph)
    (hacyclic : graph.isAcyclic) : created columns graph ≠ [] := by
  have hnames := DependencyGraph.names_of_ofColumns hgraph
  have hsource (a b : String) (he : (a, b) ∈ graph.edges) : a ∈ graph.names :=
    (DependencyGraph.mem_names_of_mem_edges hgraph he).1
  have hsome : graph.names ≠ [] := by simpa [hnames] using hne
  obtain ⟨sink, hsink, hnone⟩ :=
    exists_sink ((DependencyGraph.isAcyclic_iff hsource).mp hacyclic) hsome
  rw [hnames] at hsink
  obtain ⟨c, hc, rfl⟩ := List.mem_map.mp hsink
  -- edges end at columns of the family, so none starts at this one
  have hlevel : graph.outgoing c.name = 0 := by
    rw [DependencyGraph.outgoing, List.countP_eq_zero]
    rintro ⟨a, b⟩ he
    simp only [decide_eq_true_eq]
    rintro rfl
    exact hnone b (DependencyGraph.mem_names_of_mem_edges hgraph he).2 he
  have hcreated : c ∈ created columns graph := by simp [created, hc, hlevel]
  exact List.ne_nil_of_mem hcreated

theorem levels_of_ofGraph (h : ofGraph columns graph types table = .ok script) :
    script.additions.map Prod.fst = addedLevels columns graph := by
  have hgroups := (groups_of_ofGraph h).2.2
  generalize addedLevels columns graph = levels at hgroups ⊢
  generalize script.additions = groups at hgroups ⊢
  induction hgroups with
  | nil => rfl
  | cons hgroup _ ih => rw [List.map_cons, hgroup.1, ih]

theorem statements_of_group (h : ofGraph columns graph types table = .ok script)
    {group : Nat × List String} (hgroup : group ∈ script.additions) :
    List.Forall₂ (fun c s => addition types table c = .ok s)
      (columns.filter (graph.outgoing ·.name = group.1)) group.2 := by
  have hgroups := (groups_of_ofGraph h).2.2
  generalize addedLevels columns graph = levels at hgroups
  generalize script.additions = groups at hgroup hgroups
  induction hgroups with
  | nil => cases hgroup
  | cons hfirst _ ih =>
    rcases List.mem_cons.mp hgroup with rfl | hgroup
    · rw [hfirst.1]
      exact hfirst.2
    · exact ih hgroup

theorem creation_of_ne_nil {declarations : List String} (hne : declarations ≠ []) :
    creation table declarations = "CREATE TABLE IF NOT EXISTS " ++ table ++ " (" ++
      String.intercalate ", " declarations ++ ");" := by
  have hsome : ¬ declarations.isEmpty := by simpa using hne
  simp only [creation, if_neg hsome]

end Script

/-- The level of a function or an operator is the number of different columns in its tree. -/
theorem DependencyGraph.outgoing_eq_card {columns : List Column} {graph : DependencyGraph}
    (hnames : (columns.map Column.name).Nodup) (hgraph : ofColumns columns = .ok graph) {c : Column}
    (hc : c ∈ columns) (hwf : c.definition.WellFormed)
    (hkind : DefinitionKind.of? c.definition ≠ some .range) :
    ∃ names : List String, names.Nodup ∧ (∀ b, b ∈ names ↔ c.definition.Mentions b)
      ∧ graph.outgoing c.name = names.length := by
  obtain ⟨names, hcolumns, hmentions, hnodup⟩ := hwf.exists_names
  exact ⟨names, hnodup hkind, hmentions, outgoing_eq_length hnames hgraph hc hcolumns⟩

/-- For any family of well formed definitions under different names, with at least one column, that has
a script:
* the statement that creates the table declares at least one column. It declares exactly the columns
  without edges, in the order of the family, separated by `, ` and closed by `);`,
* the other columns have their statements in groups, one for each level that some column has,
* the statements of a group are those of the columns of its level, in the order of the family,
* so every column of the family is introduced once,
* a column is without edges exactly when its definition mentions nothing, and the level of a function or
  an operator is the number of different columns that its tree mentions. -/
theorem columns_introduced_once {columns : List Column} {graph : DependencyGraph} {types : Value}
    {table : String} {script : Script} (hne : columns ≠ [])
    (hnames : (columns.map Column.name).Nodup) (hwf : ∀ c ∈ columns, c.definition.WellFormed)
    (hgraph : DependencyGraph.ofColumns columns = .ok graph)
    (hscript : Script.ofGraph columns graph types table = .ok script) :
    (∃ declarations, declarations ≠ []
        ∧ List.Forall₂ (fun c s => Script.declaration types c.name = .ok s)
          (columns.filter (fun c => graph.outgoing c.name = 0)) declarations
        ∧ script.create = "CREATE TABLE IF NOT EXISTS " ++ table ++ " (" ++
          String.intercalate ", " declarations ++ ");")
      ∧ (script.additions.map Prod.fst).Nodup
      ∧ (∀ level, level ∈ script.additions.map Prod.fst ↔
          0 < level ∧ ∃ c ∈ columns, graph.outgoing c.name = level)
      ∧ (∀ group ∈ script.additions,
          List.Forall₂ (fun c s => Script.addition types table c = .ok s)
            (columns.filter (fun c => graph.outgoing c.name = group.1)) group.2)
      ∧ (columns.filter (fun c => graph.outgoing c.name = 0) ++ script.additions.flatMap
          (fun group => columns.filter (fun c => graph.outgoing c.name = group.1))).Perm columns
      ∧ ∀ c ∈ columns, (graph.outgoing c.name = 0 ↔ ∀ b, ¬ c.definition.Mentions b)
        ∧ (DefinitionKind.of? c.definition = some .call
            ∨ DefinitionKind.of? c.definition = some .binary →
          ∃ names : List String, names.Nodup ∧ (∀ b, b ∈ names ↔ c.definition.Mentions b)
            ∧ graph.outgoing c.name = names.length) := by
  have hlevels := Script.levels_of_ofGraph hscript
  obtain ⟨hacyclic, ⟨declarations, hdeclarations, hcreate⟩, -⟩ := Script.groups_of_ofGraph hscript
  have hdeclared : declarations ≠ [] := by
    intro hnil
    rw [hnil, List.forall₂_nil_right_iff] at hdeclarations
    exact Script.created_ne_nil hne hgraph hacyclic hdeclarations
  refine ⟨⟨declarations, hdeclared, hdeclarations, ?_⟩, ?_, ?_, ?_, ?_, ?_⟩
  · rw [hcreate, Script.creation_of_ne_nil hdeclared]
  · rw [hlevels]
    exact Script.nodup_addedLevels columns graph
  · intro level
    rw [hlevels, Script.mem_addedLevels, Nat.pos_iff_ne_zero]
  · exact fun group hgroup => Script.statements_of_group hscript hgroup
  · have hadded : script.additions.flatMap
        (fun group => columns.filter (fun c => graph.outgoing c.name = group.1)) =
          Script.added columns graph := by
      rw [Script.added, ← hlevels, List.flatMap_map]
    rw [hadded]
    exact Script.created_append_added_perm columns graph
  · intro c hc
    constructor
    · rw [← not_exists, ← DependencyGraph.outgoing_ne_zero_iff hnames hgraph hc, not_not]
    · intro hkind
      apply DependencyGraph.outgoing_eq_card hnames hgraph hc (hwf c hc)
      rcases hkind with hkind | hkind <;> simp [hkind]

/-- The family of orders: `summary` names `net` and `total` twice each and has the level two. -/
theorem orders_introduced_once :
    ∃ script, Script.ofGraph orderColumns orderGraph orderTypes "orders" = .ok script
      ∧ (∃ declarations, declarations ≠ []
        ∧ List.Forall₂ (fun c s => Script.declaration orderTypes c.name = .ok s)
          (orderColumns.filter (fun c => orderGraph.outgoing c.name = 0)) declarations
        ∧ script.create = "CREATE TABLE IF NOT EXISTS orders (" ++
          String.intercalate ", " declarations ++ ");")
      ∧ (∀ level, level ∈ script.additions.map Prod.fst ↔ level = 1 ∨ level = 2)
      ∧ orderGraph.outgoing "summary" = 2 := by
  obtain ⟨script, hscript⟩ := Script.exists_ofGraph_iff.mpr
    ⟨(DependencyGraph.isAcyclic_iff_no_dependence graph_orders).mpr no_cycle_orders, typed_orders,
      fun c hc hlevel => sql_orders c hc
        ((DependencyGraph.outgoing_ne_zero_iff (by decide) graph_orders hc).mp hlevel)⟩
  have h := columns_introduced_once (by decide) (by decide) wellFormed_orders graph_orders hscript
  refine ⟨script, hscript, h.1, fun level => ?_, rfl⟩
  rw [h.2.2.1 level]
  have hcolumns : (∃ c ∈ orderColumns, orderGraph.outgoing c.name = level) ↔
      level ∈ orderColumns.map (fun c => orderGraph.outgoing c.name) := by
    rw [List.mem_map]
  have hlevels : orderColumns.map (fun c => orderGraph.outgoing c.name) = [0, 2, 2, 0, 1] := rfl
  rw [hcolumns, hlevels]
  simp only [List.mem_cons, List.not_mem_nil, or_false]
  omega

/-! ## Plain and generated columns

Whether a column is generated is decided by its references and not by the kind of its definition. So a
formula that refers to nothing is declared like a constant, and its SQL is lost. -/

/-- A definition that computes something: a function or an operator. -/
def Definition.IsFormula (d : Definition) : Prop :=
  DefinitionKind.of? d = some .call ∨ DefinitionKind.of? d = some .binary

/-- Take the columns of any document that has a script. The text of the script declares some of them
with the table, by name and type only, and adds the others one by one as generated columns, each with
its own SQL. Every column is in one of the two groups. A column, formula or not, is generated exactly
when its definition mentions some column. -/
theorem generated_iff_mentions {definitions types : Value} {table : String} {columns : List Column}
    {script : Script} (hcolumns : Column.ofValue definitions = .ok columns)
    (hnames : (columns.map Column.name).Nodup)
    (hscript : Script.ofColumns definitions types table = .ok script) :
    ∃ (plain generated : List Column) (declarations statements : List String),
      (plain ++ generated).Perm columns
      ∧ List.Forall₂ (fun c s => ∃ type, Script.columnType types c.name = .ok type
          ∧ c.name ++ " " ++ type = s) plain declarations
      ∧ List.Forall₂ (fun c s => ∃ type sql, Script.columnType types c.name = .ok type
          ∧ c.sql = .ok sql
          ∧ "ALTER TABLE " ++ table ++ " ADD COLUMN " ++ (c.name ++ " " ++ type) ++
            " GENERATED ALWAYS AS " ++ sql.text ++ " STORED;" = s) generated statements
      ∧ script.text = Script.creation table declarations ++ "\n" ++
          String.join (statements.map (fun s => "\n" ++ s))
      ∧ ∀ c ∈ columns, (c ∈ generated ↔ ∃ b, c.definition.Mentions b)
        ∧ (c ∈ plain ↔ ∀ b, ¬ c.definition.Mentions b) := by
  rw [Script.ofColumns, hcolumns, ok_bind] at hscript
  obtain ⟨graph, hgraph, hscript⟩ := bind_eq_ok.mp hscript
  obtain ⟨declarations, statements, hdeclarations, hstatements, hcreate, hadditions⟩ :=
    Script.ofGraph_eq_ok hscript
  refine ⟨Script.created columns graph, Script.added columns graph, declarations, statements,
    Script.created_append_added_perm columns graph, ?_, ?_, ?_, fun c hc => ?_⟩
  · exact hdeclarations.imp fun c s hs => Script.declaration_eq_ok.mp hs
  · exact hstatements.imp fun c s hs => Script.addition_eq_ok.mp hs
  · rw [Script.text_eq, hcreate, hadditions]
  · have hlevel := DependencyGraph.outgoing_ne_zero_iff hnames hgraph hc
    rw [Script.mem_added, Script.mem_created, ← not_exists, ← hlevel, not_not]
    exact ⟨and_iff_right hc, and_iff_right hc⟩

/-- A constant, a sum of constants, and the product of both columns. -/
def tariffMembers : List (String × Value) :=
  let number (n : Int) : Value := .object [("type", .str "number"), ("value", .int n), ("sql", .int n)]
  [("net", number 20),
   ("fee", .object [("type", .str "binary-expression"), ("operator", .str "+"), ("left", number 1),
      ("right", number 2), ("sql", .str "(1) + (2)")]),
   ("gross", .object [("type", .str "binary-expression"), ("operator", .str "*"),
      ("left", cellOf "net"), ("right", cellOf "fee"), ("sql", .str "(net) * (fee)")])]

def tariffTypes : Value :=
  .object (tariffMembers.map (fun m => (m.1, .object [("type", .str "INTEGER")])))

def tariffScript : Script where
  create := "CREATE TABLE IF NOT EXISTS t (net INTEGER, fee INTEGER);"
  additions := [(2, ["ALTER TABLE t ADD COLUMN gross INTEGER GENERATED ALWAYS AS (net) * (fee) STORED;"])]

set_option maxRecDepth 4000 in
theorem script_tariff :
    Script.ofColumns (.object tariffMembers) tariffTypes "t" = .ok tariffScript := by
  with_unfolding_all rfl

/-- The product is generated, and the sum of constants is not. -/
theorem tariff_generated :
    Script.ofColumns (.object tariffMembers) tariffTypes "t" = .ok tariffScript
      ∧ ∃ (plain generated : List Column) (declarations statements : List String),
        (plain ++ generated).Perm (tariffMembers.map Column.ofMember)
        ∧ plain.length = declarations.length ∧ generated.length = statements.length
        ∧ tariffScript.text = Script.creation "t" declarations ++ "\n" ++
          String.join (statements.map (fun s => "\n" ++ s))
        ∧ Column.ofMember tariffMembers[2] ∈ generated ∧ Column.ofMember tariffMembers[1] ∈ plain := by
  obtain ⟨plain, generated, declarations, statements, hperm, hdeclarations, hstatements, htext,
    hgroup⟩ := generated_iff_mentions rfl (by decide) script_tariff
  have hfee : Column.ofMember tariffMembers[1] ∈ tariffMembers.map Column.ofMember :=
    List.mem_map_of_mem (List.getElem_mem _)
  have hgross : Column.ofMember tariffMembers[2] ∈ tariffMembers.map Column.ofMember :=
    List.mem_map_of_mem (List.getElem_mem _)
  refine ⟨script_tariff, plain, generated, declarations, statements, hperm, hdeclarations.length_eq,
    hstatements.length_eq, htext, ?_, ?_⟩
  · exact (hgroup _ hgross).1.mpr ⟨"net", .left .cell⟩
  · refine (hgroup _ hfee).2.mpr fun b hmention => ?_
    rcases hmention with _ | _ | _ | ⟨⟨⟩⟩ | ⟨⟨⟩⟩

set_option maxRecDepth 4000 in
/-- A formula whose SQL is nowhere in the text of the script. -/
theorem constant_formula_lost :
    Script.ofColumns (.object tariffMembers) tariffTypes "t" = .ok tariffScript
      ∧ (Column.ofMember tariffMembers[1]).name = "fee"
      ∧ (Column.ofMember tariffMembers[1]).definition.IsFormula
      ∧ (Column.ofMember tariffMembers[1]).sql = .ok (.str "(1) + (2)")
      ∧ ¬ "(1) + (2)".toList <:+: tariffScript.text.toList :=
  ⟨script_tariff, rfl, .inr rfl, rfl, fun h =>
    absurd (h.subset (by decide : '+' ∈ "(1) + (2)".toList)) (by decide +kernel)⟩

end SheetIntake
