import SheetIntake.Proofs.ScriptLayout
import SheetIntake.Proofs.WellFormedDefinitions

/-!
# When there is a script

A family of well formed definitions is turned into a script unless one of four things is wrong with
it, and these are looked at in a fixed order. The references come first, since the graph is made from
them, and the graph is tested for cycles before any statement is written. Types and SQL are read last,
and SQL only for columns that refer to others.

* **`script_exists_iff`** — there is a script exactly when every reference leads to a column of the
  family, no column depends on itself, every column has a type, and every column with references has
  its SQL. A family with all its references and a cycle is refused for the cycle, whatever its types.
-/

namespace SheetIntake

open Outcome

theorem Script.ofGraph_eq_cyclic {columns : List Column} {graph : DependencyGraph}
    (hcyclic : ¬ graph.isAcyclic) (types : Value) (table : String) :
    ofGraph columns graph types table = .error .cyclicDefinitions := by
  have hfalse : graph.isAcyclic = false := by simpa using hcyclic
  rw [ofGraph, hfalse]
  rfl

/-- For any document of well formed definitions under different names, any types and any name of the
table, there is the text of a script exactly when
1. every column that is mentioned anywhere in a definition is one of the document,
2. no column depends on itself, directly or through others,
3. every column has an entry among the types that says its type,
4. every column that mentions another one has its SQL.

Where the first of these holds and the second does not, the fault is that of a cycle. -/
theorem script_exists_iff {definitions : Value} {columns : List Column}
    (hcolumns : Column.ofValue definitions = .ok columns)
    (hnames : (columns.map Column.name).Nodup)
    (hwf : ∀ c ∈ columns, c.definition.WellFormed) (types : Value) (table : String) :
    ((∃ text, (Script.ofColumns definitions types table).map Script.text = .ok text) ↔
        (∀ c ∈ columns, ∀ b, c.definition.Mentions b → b ∈ columns.map Column.name)
        ∧ (∀ a, ¬ Relation.TransGen (DependsOn columns) a a)
        ∧ (∀ c ∈ columns, Script.Typed types c.name)
        ∧ ∀ c ∈ columns, (∃ b, c.definition.Mentions b) → ∃ sql, c.sql = .ok sql)
      ∧ ((∀ c ∈ columns, ∀ b, c.definition.Mentions b → b ∈ columns.map Column.name) →
        (∃ a, Relation.TransGen (DependsOn columns) a a) →
        ∃ fault, Script.ofColumns definitions types table = .error fault
          ∧ fault.kind = "ValueError"
          ∧ fault.message = "The dependency graph contains cyclic dependencies.") := by
  rw [← DependencyGraph.exists_ofColumns_iff hwf]
  have hsteps : Script.ofColumns definitions types table =
      (DependencyGraph.ofColumns columns >>= fun graph =>
        Script.ofGraph columns graph types table) := by
    rw [Script.ofColumns, hcolumns, ok_bind]
  rw [hsteps]
  constructor
  · -- with the graph at hand, the conditions on it are those on the family
    have hgraph {graph : DependencyGraph} (hg : DependencyGraph.ofColumns columns = .ok graph) :
        (∃ script, Script.ofGraph columns graph types table = .ok script) ↔
          (∀ a, ¬ Relation.TransGen (DependsOn columns) a a)
          ∧ (∀ c ∈ columns, Script.Typed types c.name)
          ∧ ∀ c ∈ columns, (∃ b, c.definition.Mentions b) → ∃ sql, c.sql = .ok sql := by
      have hlevels : (∀ c ∈ columns, graph.outgoing c.name ≠ 0 → ∃ sql, c.sql = .ok sql) ↔
          ∀ c ∈ columns, (∃ b, c.definition.Mentions b) → ∃ sql, c.sql = .ok sql :=
        forall₂_congr fun c hc =>
          imp_congr_left (DependencyGraph.outgoing_ne_zero_iff hnames hg hc)
      rw [Script.exists_ofGraph_iff, DependencyGraph.isAcyclic_iff_no_dependence hg, hlevels]
    constructor
    · rintro ⟨text, htext⟩
      obtain ⟨script, hscript, -⟩ := map_eq_ok.mp htext
      obtain ⟨graph, hg, hscript⟩ := bind_eq_ok.mp hscript
      exact ⟨⟨graph, hg⟩, (hgraph hg).mp ⟨script, hscript⟩⟩
    · rintro ⟨⟨graph, hg⟩, hconditions⟩
      obtain ⟨script, hscript⟩ := (hgraph hg).mpr hconditions
      exact ⟨script.text, map_eq_ok.mpr ⟨script, bind_eq_ok.mpr ⟨graph, hg, hscript⟩, rfl⟩⟩
  · rintro ⟨graph, hg⟩ ⟨a, ha⟩
    have hcyclic : ¬ graph.isAcyclic = true := by
      rw [DependencyGraph.isAcyclic_iff_no_dependence hg]
      exact fun hacyclic => hacyclic a ha
    refine ⟨.cyclicDefinitions, ?_, rfl, rfl⟩
    rw [hg, ok_bind, Script.ofGraph_eq_cyclic hcyclic]

/-! ## Two families

The first one names a column twice within one definition, in a cell and in a range. The second one goes
round in a circle through a cell, a function and an operator. -/

def cellOf (column : String) : Value :=
  .object [("type", .str "cell"), ("column", .str column), ("sql", .str column)]

def rangeOf (columns : List String) : Value :=
  .object [("type", .str "cell_range"), ("columns", .list (columns.map .str))]

/-- Two constants, their product, a copy of the product, and a function of all of it. -/
def orderMembers : List (String × Value) :=
  [("net", .object [("type", .str "number"), ("value", .int 20)]),
   ("total", .object [("type", .str "binary-expression"), ("operator", .str "*"),
      ("left", cellOf "net"), ("right", cellOf "rate"), ("sql", .str "(net) * (rate)")]),
   ("summary", .object [("type", .str "function"), ("name", .str "SUM"),
      ("arguments", .list [rangeOf ["net", "total", "net"], cellOf "total"]),
      ("sql", .str "net + total")]),
   ("rate", .object [("type", .str "number"), ("value", .int 3)]),
   ("billed", cellOf "total")]

def orderColumns : List Column :=
  orderMembers.map Column.ofMember

def orderTypes : Value :=
  .object (orderMembers.map (fun m => (m.1, .object [("type", .str "INTEGER")])))

def orderGraph : DependencyGraph :=
  { names := ["net", "total", "summary", "rate", "billed"]
    edges := [("total", "net"), ("total", "rate"), ("summary", "net"), ("summary", "total"),
      ("billed", "total")] }

theorem graph_orders : DependencyGraph.ofColumns orderColumns = .ok orderGraph := rfl

theorem wellFormed_orders : ∀ c ∈ orderColumns, c.definition.WellFormed := by
  intro c hc
  simp only [orderColumns, orderMembers, List.map_cons, List.map_nil, List.mem_cons, List.not_mem_nil,
    or_false] at hc
  rcases hc with rfl | rfl | rfl | rfl | rfl
  · exact .constant
  · exact .binary (.cell "net") (.cell "rate")
  · refine .call (List.forall_mem_cons.mpr ⟨.range ["net", "total", "net"], ?_⟩)
    exact List.forall_mem_singleton.mpr (.cell "total")
  · exact .constant
  · exact .cell "total"

theorem typed_orders : ∀ c ∈ orderColumns, Script.Typed orderTypes c.name := by
  refine List.forall_mem_map.mpr fun m hm => ⟨[("type", .str "INTEGER")], .str "INTEGER", ?_, rfl⟩
  revert m
  simp only [orderMembers, List.forall_mem_cons]
  exact ⟨rfl, rfl, rfl, rfl, rfl, List.forall_mem_nil _⟩

theorem no_cycle_orders (a : String) : ¬ Relation.TransGen (DependsOn orderColumns) a a := by
  apply no_cycle_of_rank String.length
  intro a b hdepends
  have hedges : ∀ e ∈ orderGraph.edges, e.2.length < e.1.length := by decide
  exact hedges (a, b) ((DependencyGraph.mem_edges graph_orders).mpr hdepends)

theorem sql_orders : ∀ c ∈ orderColumns, (∃ b, c.definition.Mentions b) → ∃ sql, c.sql = .ok sql := by
  intro c hc hmention
  have hlevel := (DependencyGraph.outgoing_ne_zero_iff (by decide) graph_orders hc).mpr hmention
  simp only [orderColumns, orderMembers, List.map_cons, List.map_nil, List.mem_cons, List.not_mem_nil,
    or_false] at hc
  rcases hc with rfl | rfl | rfl | rfl | rfl
  · exact absurd rfl hlevel
  · exact ⟨_, rfl⟩
  · exact ⟨_, rfl⟩
  · exact absurd rfl hlevel
  · exact ⟨_, rfl⟩

/-- `a` is a copy of `b`, `b` a function of `c`, and `c` is computed from `a`. -/
def ringMembers : List (String × Value) :=
  [("a", cellOf "b"),
   ("b", .object [("type", .str "function"), ("arguments", .list [rangeOf ["c"]])]),
   ("c", .object [("type", .str "binary-expression"), ("left", .object [("type", .str "text")]),
      ("right", cellOf "a")])]

theorem wellFormed_ring : ∀ c ∈ ringMembers.map Column.ofMember, c.definition.WellFormed := by
  intro c hc
  simp only [ringMembers, List.map_cons, List.map_nil, List.mem_cons, List.not_mem_nil, or_false] at hc
  rcases hc with rfl | rfl | rfl
  · exact .cell "b"
  · exact .call (List.forall_mem_singleton.mpr (.range ["c"]))
  · exact .binary .constant (.cell "a")

theorem graph_ring : DependencyGraph.ofColumns (ringMembers.map Column.ofMember) =
    .ok { names := ["a", "b", "c"], edges := [("a", "b"), ("b", "c"), ("c", "a")] } := rfl

theorem cycle_ring : Relation.TransGen (DependsOn (ringMembers.map Column.ofMember)) "a" "a" := by
  have hstep (x y : String) (h : (x, y) ∈ [("a", "b"), ("b", "c"), ("c", "a")]) :
      DependsOn (ringMembers.map Column.ofMember) x y :=
    (DependencyGraph.mem_edges graph_ring).mp h
  exact ((Relation.TransGen.single (hstep "a" "b" (by decide))).tail
    (hstep "b" "c" (by decide))).tail (hstep "c" "a" (by decide))

/-- The first family has a script. The second one is refused for its cycle although none of its
columns has a type, and two of them have no SQL. -/
theorem script_exists_orders :
    (∃ text, (Script.ofColumns (.object orderMembers) orderTypes "orders").map Script.text = .ok text)
      ∧ ∃ fault, Script.ofColumns (.object ringMembers) .null "ring" = .error fault
        ∧ fault.kind = "ValueError"
        ∧ fault.message = "The dependency graph contains cyclic dependencies." := by
  have horders := script_exists_iff
    (show Column.ofValue (.object orderMembers) = .ok orderColumns from rfl) (by decide)
    wellFormed_orders orderTypes "orders"
  have hring := script_exists_iff
    (show Column.ofValue (.object ringMembers) = .ok (ringMembers.map Column.ofMember) from rfl)
    (by decide) wellFormed_ring .null "ring"
  refine ⟨horders.1.mpr ⟨?_, no_cycle_orders, typed_orders, sql_orders⟩, hring.2 ?_ ⟨"a", cycle_ring⟩⟩
  · exact (DependencyGraph.exists_ofColumns_iff wellFormed_orders).mp ⟨orderGraph, graph_orders⟩
  · exact (DependencyGraph.exists_ofColumns_iff wellFormed_ring).mp ⟨_, graph_ring⟩

end SheetIntake
