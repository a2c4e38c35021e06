import SheetIntake.Proofs.ColumnLevels
import SheetIntake.Proofs.StatementOrder

/-!
# The order of columns in the document

The same definitions in another order have the same references, so the same columns have the same
levels, and there is a script for both orders or for none. What is introduced at a level is
introduced in another order.

* `DependencyGraph.exists_reordered` — the graphs of both orders have the same edges.
* `order_of_columns_irrelevant` — the scripts of both orders.
-/

namespace SheetIntake

open Outcome

section

variable {ε α β : Type} {f : α → Except ε β} {xs xs' : List α} {ys ys' : List β}
  (hperm : xs.Perm xs')

include hperm

theorem exists_perm_mapM (h : xs.mapM f = .ok ys) : ∃ ys', xs'.mapM f = .ok ys' ∧ ys.Perm ys' := by
  obtain ⟨ys', hys', hperm'⟩ := List.perm_comp_forall₂ hperm.symm (mapM_eq_ok.mp h)
  exact ⟨ys', mapM_eq_ok.mpr hys', hperm'.symm⟩

theorem perm_of_forall₂ (h : List.Forall₂ (fun x y => f x = .ok y) xs ys)
    (h' : List.Forall₂ (fun x y => f x = .ok y) xs' ys') : ys.Perm ys' := by
  obtain ⟨zs, hzs, hys⟩ := exists_perm_mapM hperm (mapM_eq_ok.mpr h)
  cases hzs.symm.trans (mapM_eq_ok.mpr h')
  exact hys

end

section

variable {columns columns' : List Column} (hperm : columns.Perm columns')

namespace DependencyGraph

variable {graph graph' : DependencyGraph}

/-- An edge needs its end to be among the names, wherever it stands there. -/
theorem edgesOf_congr {names names' : List String} (h : ∀ name, name ∈ names ↔ name ∈ names') :
    edgesOf names = edgesOf names' := by
  have hedge : edge names = edge names' := by
    funext source target
    cases target <;> simp only [edge, h]
  funext column
  simp only [edgesOf, hedge]

include hperm

theorem exists_reordered (hgraph : ofColumns columns = .ok graph) :
    ∃ graph', ofColumns columns' = .ok graph' ∧ graph.edges.Perm graph'.edges := by
  obtain ⟨edges, hedges, rfl⟩ := ofColumns_eq_ok.mp hgraph
  have hnames : ∀ name, name ∈ columns.map Column.name ↔ name ∈ columns'.map Column.name :=
    fun name => (hperm.map Column.name).mem_iff
  rw [edgesOf_congr hnames] at hedges
  obtain ⟨edges', hedges', hsame⟩ := exists_perm_mapM hperm hedges
  exact ⟨_, ofColumns_eq_ok.mpr ⟨edges', hedges', rfl⟩, hsame.flatten⟩

variable (hgraph : ofColumns columns = .ok graph) (hgraph' : ofColumns columns' = .ok graph')

include hgraph hgraph'

theorem outgoing_reordered (name : String) : graph.outgoing name = graph'.outgoing name := by
  obtain ⟨other, hother, hedges⟩ := exists_reordered hperm hgraph
  cases hother.symm.trans hgraph'
  exact hedges.countP_eq _

theorem isAcyclic_reordered : graph.isAcyclic ↔ graph'.isAcyclic := by
  have hdepends : DependsOn columns = DependsOn columns' := by
    funext a b
    simp only [DependsOn, hperm.mem_iff]
  rw [isAcyclic_iff_no_dependence hgraph, isAcyclic_iff_no_dependence hgraph', hdepends]

end DependencyGraph

namespace Script

variable {graph graph' : DependencyGraph} {types : Value} {table : String}
  (hgraph : DependencyGraph.ofColumns columns = .ok graph)
  (hgraph' : DependencyGraph.ofColumns columns' = .ok graph')

include hperm hgraph hgraph'

theorem exists_ofGraph_reordered (h : ∃ script, ofGraph columns graph types table = .ok script) :
    ∃ script, ofGraph columns' graph' types table = .ok script := by
  have hlevels := DependencyGraph.outgoing_reordered hperm hgraph hgraph'
  have hacyclic := DependencyGraph.isAcyclic_reordered hperm hgraph hgraph'
  simpa only [exists_ofGraph_iff, hacyclic, hperm.mem_iff, hlevels] using h

theorem filter_level_reordered (level : Nat) :
    (columns.filter (graph.outgoing ·.name = level)).Perm
      (columns'.filter (graph'.outgoing ·.name = level)) := by
  simp only [DependencyGraph.outgoing_reordered hperm hgraph hgraph']
  exact hperm.filter _

theorem addedLevels_reordered : (addedLevels columns graph).Perm (addedLevels columns' graph') := by
  have hlevels := DependencyGraph.outgoing_reordered hperm hgraph hgraph'
  refine (List.perm_ext_iff_of_nodup (nodup_addedLevels _ _) (nodup_addedLevels _ _)).mpr ?_
  intro level
  simp only [mem_addedLevels, hperm.mem_iff, hlevels]

end Script

end

theorem Script.ofColumns_object_eq_ok {members : List (String × Value)} {types : Value}
    {table : String} {script : Script} : ofColumns (.object members) types table = .ok script ↔
      ∃ graph, DependencyGraph.ofColumns (members.map Column.ofMember) = .ok graph
        ∧ ofGraph (members.map Column.ofMember) graph types table = .ok script := by
  rw [ofColumns, Column.ofValue, ok_bind, bind_eq_ok]

theorem Script.exists_ofColumns_reordered {members members' : List (String × Value)}
    (hperm : members.Perm members') {types : Value} {table : String}
    (h : ∃ script, ofColumns (.object members) types table = .ok script) :
    ∃ script, ofColumns (.object members') types table = .ok script := by
  obtain ⟨script, h⟩ := h
  obtain ⟨graph, hgraph, hscript⟩ := ofColumns_object_eq_ok.mp h
  have hcolumns := hperm.map Column.ofMember
  obtain ⟨graph', hgraph', -⟩ := DependencyGraph.exists_reordered hcolumns hgraph
  obtain ⟨script', hscript'⟩ := exists_ofGraph_reordered hcolumns hgraph hgraph' ⟨script, hscript⟩
  exact ⟨script', ofColumns_object_eq_ok.mpr ⟨graph', hgraph', hscript'⟩⟩

/-- For definitions in two orders there is a script for both or for none. All columns have the same
levels in both, the same levels occur, the statements of a level are the same up to their order, and
so are the declarations of the columns that are created. -/
theorem order_of_columns_irrelevant {members members' : List (String × Value)}
    (hperm : members.Perm members') (types : Value) (table : String) :
    ((∃ script, Script.ofColumns (.object members) types table = .ok script) ↔
        ∃ script', Script.ofColumns (.object members') types table = .ok script')
      ∧ ∀ script script', Script.ofColumns (.object members) types table = .ok script →
        Script.ofColumns (.object members') types table = .ok script' →
        ∃ graph graph', DependencyGraph.ofColumns (members.map Column.ofMember) = .ok graph
          ∧ DependencyGraph.ofColumns (members'.map Column.ofMember) = .ok graph'
          ∧ (∀ name, graph.outgoing name = graph'.outgoing name)
          ∧ (script.additions.map Prod.fst).Perm (script'.additions.map Prod.fst)
          ∧ (∀ level statements statements', (level, statements) ∈ script.additions →
              (level, statements') ∈ script'.additions → statements.Perm statements')
          ∧ ∃ declarations declarations',
              List.Forall₂ (fun c s => Script.declaration types c.name = .ok s)
                ((members.map Column.ofMember).filter (fun c => graph.outgoing c.name = 0))
                declarations
              ∧ script.create = Script.creation table declarations
              ∧ declarations.Perm declarations'
              ∧ script'.create = Script.creation table declarations' := by
  refine ⟨⟨Script.exists_ofColumns_reordered hperm, Script.exists_ofColumns_reordered hperm.symm⟩,
    fun script script' h h' => ?_⟩
  obtain ⟨graph, hgraph, hscript⟩ := Script.ofColumns_object_eq_ok.mp h
  obtain ⟨graph', hgraph', hscript'⟩ := Script.ofColumns_object_eq_ok.mp h'
  have hcolumns := hperm.map Column.ofMember
  have hgroup := Script.filter_level_reordered hcolumns hgraph hgraph'
  have hlevels := DependencyGraph.outgoing_reordered hcolumns hgraph hgraph'
  refine ⟨graph, graph', hgraph, hgraph', hlevels, ?_,
    fun level statements statements' hadded hadded' => ?_, ?_⟩
  · rw [Script.levels_of_ofGraph hscript, Script.levels_of_ofGraph hscript']
    exact Script.addedLevels_reordered hcolumns hgraph hgraph'
  · exact perm_of_forall₂ (hgroup level) (Script.statements_of_group hscript hadded)
      (Script.statements_of_group hscript' hadded')
  · obtain ⟨-, ⟨declarations, hdeclared, hcreate⟩, -⟩ := Script.groups_of_ofGraph hscript
    obtain ⟨-, ⟨declarations', hdeclared', hcreate'⟩, -⟩ := Script.groups_of_ofGraph hscript'
    exact ⟨declarations, declarations', hdeclared, hcreate,
      perm_of_forall₂ (hgroup 0) hdeclared hdeclared', hcreate'⟩

/-- The document with its members in the opposite order has a script, in which `d` is added at the
same level by the same statement. -/
theorem crossed_reversed_adds_the_same : ∃ script,
    Script.ofColumns (.object crossedMembers.reverse) crossedTypes "t" = .ok script
      ∧ (script.additions.map Prod.fst).Perm [1, 2]
      ∧ ∀ statements, (2, statements) ∈ script.additions → statements =
          ["ALTER TABLE t ADD COLUMN d INTEGER GENERATED ALWAYS AS (a) + (b) STORED;"] := by
  have hperm : crossedMembers.Perm crossedMembers.reverse := (List.reverse_perm _).symm
  obtain ⟨hexists, hsame⟩ := order_of_columns_irrelevant hperm crossedTypes "t"
  obtain ⟨script, hscript⟩ := hexists.mp ⟨crossedScript, script_crossed⟩
  obtain ⟨_, _, -, -, -, hlevels, hstatements, -⟩ := hsame _ _ script_crossed hscript
  refine ⟨script, hscript, hlevels.symm, fun statements hadded => ?_⟩
  have hlisted := hstatements 2 _ statements (.tail _ (.head _)) hadded
  exact (List.singleton_perm.mp hlisted).symm

end SheetIntake
