import SheetIntake.Proofs.StatementOrder

/-!
# Levels and the order of additions

Columns with references are added level by level, in the order in which the level table lists the
levels, and within a level in the order of the document.

* `additions_in_level_order_iff` — columns with fewer references are added first exactly when the
  table lists the levels in ascending order, as it does for levels below the number of its slots.
* `wide_total_added_first` — the levels 0, 8 and 1 are listed in another order.
-/

namespace SheetIntake

open Column (name ofMember)

theorem eq_of_sublist_swap {α : Type} {a b : α} {xs : List α} (hnodup : xs.Nodup)
    (h : [a, b].Sublist xs) (hswap : [b, a].Sublist xs) : a = b := by
  induction xs with
  | nil => simp at h
  | cons x xs ih =>
    grind

namespace Script

variable {columns : List Column} {graph : DependencyGraph} {ps : List Piece} {c d : Column}

theorem introducedBefore_iff (hnames : (columns.map name).Nodup)
    (horder : ps.filterMap Piece.introduces =
      (created columns graph ++ added columns graph).map name)
    (hc : c ∈ columns) (hd : d ∈ columns) (hpos : graph.outgoing c.name ≠ 0) :
    IntroducedBefore ps d.name c.name ↔
      graph.outgoing d.name = 0 ∨ LevelBefore columns graph d.name c.name ∨
      (graph.outgoing d.name = graph.outgoing c.name
        ∧ [d.name, c.name].Sublist (columns.map name)) := by
  have hperm := created_append_added_perm columns graph
  rw [IntroducedBefore, horder, pair_sublist_map ((hperm.map name).nodup_iff.mpr hnames)
    (hperm.mem_iff.mpr hd) (hperm.mem_iff.mpr hc), pair_sublist_introductions hc hd hpos,
    pair_sublist_map hnames hd hc]

theorem pairwise_addedLevels_iff : (addedLevels columns graph).Pairwise (· < ·) ↔
    ∀ c ∈ columns, ∀ d ∈ columns, 0 < graph.outgoing d.name →
      graph.outgoing d.name < graph.outgoing c.name → LevelBefore columns graph d.name c.name := by
  constructor
  · intro h c hc d hd hpos hlt
    have hmem : ∀ k ∈ [graph.outgoing d.name, graph.outgoing c.name],
        k ∈ addedLevels columns graph := by
      simp only [List.forall_mem_cons, mem_addedLevels]
      exact ⟨⟨hpos.ne', d, hd, rfl⟩, ⟨(hpos.trans hlt).ne', c, hc, rfl⟩, by simp⟩
    have hsub := List.sublist_of_subperm_of_pairwise (r := (· < ·))
      (List.subperm_of_subset (by simp [hlt.ne]) hmem) (by simp [hlt]) h
    exact hsub.trans List.filter_sublist
  · intro h
    refine List.pairwise_iff_forall_sublist.mpr fun {a b} hab => ?_
    obtain ⟨ha, c, hc, rfl⟩ := mem_addedLevels.mp (hab.subset (by simp : a ∈ [a, b]))
    obtain ⟨hb, d, hd, rfl⟩ := mem_addedLevels.mp (hab.subset (by simp : b ∈ [_, b]))
    have hne : graph.outgoing c.name ≠ graph.outgoing d.name := by
      simpa using (nodup_addedLevels columns graph).sublist hab
    rcases hne.lt_or_gt with hlt | hlt
    · exact hlt
    · -- the levels would be listed in both orders
      have hback := h c hc d hd (Nat.pos_of_ne_zero hb) hlt
      have hahead := hab.trans List.filter_sublist
      exact absurd (eq_of_sublist_swap (nodup_levelOrder _) hahead hback) hne

/-- Statements that add columns come by level: of two columns with references, the one with fewer
is added first. -/
def InLevelOrder (columns : List Column) (graph : DependencyGraph) (ps : List Piece) : Prop :=
  ∀ c ∈ columns, ∀ d ∈ columns, 0 < graph.outgoing d.name →
    graph.outgoing d.name < graph.outgoing c.name → IntroducedBefore ps d.name c.name

theorem inLevelOrder_iff (hnames : (columns.map name).Nodup)
    (horder : ps.filterMap Piece.introduces =
      (created columns graph ++ added columns graph).map name) :
    InLevelOrder columns graph ps ↔ (addedLevels columns graph).Pairwise (· < ·) := by
  rw [pairwise_addedLevels_iff]
  refine forall₂_congr fun c hc => forall₂_congr fun d hd => forall₂_congr fun hpos hlt => ?_
  rw [introducedBefore_iff hnames horder hc hd (hpos.trans hlt).ne']
  simp [hpos.ne', hlt.ne]

end Script

open Outcome

/-- For the columns of any document that has a script: columns with equally many references are
added in the order of the document. Those with fewer are added before those with more exactly when
the level table lists the levels in ascending order, which it does when they are below the number of
its slots, and it has at least eight. -/
theorem additions_in_level_order_iff {definitions types : Value} {table : String}
    {columns : List Column} {graph : DependencyGraph} {script : Script}
    (hcolumns : Column.ofValue definitions = .ok columns)
    (hnames : (columns.map Column.name).Nodup)
    (hgraph : DependencyGraph.ofColumns columns = .ok graph)
    (hscript : Script.ofColumns definitions types table = .ok script) :
    ∃ ps levels, Script.pieces columns graph types table = .ok ps
      ∧ String.join (ps.map Script.Piece.text) = script.text
      ∧ (∀ p ∈ ps, ∀ name, p.introduces = some name →
          ∃ c ∈ columns, c.name = name ∧ Script.introduction types table graph c = .ok p)
      ∧ (∀ c ∈ columns, ∀ d ∈ columns, 0 < graph.outgoing c.name →
          graph.outgoing d.name = graph.outgoing c.name →
          (Script.IntroducedBefore ps d.name c.name ↔
            [d.name, c.name].Sublist (columns.map Column.name)))
      ∧ levels = columns.map (fun c => graph.outgoing c.name)
      ∧ (Script.InLevelOrder columns graph ps ↔
          ((levelOrder levels).filter (fun level => level ≠ 0)).Pairwise (· < ·))
      ∧ 8 ≤ levelSlots levels
      ∧ ((∀ level ∈ levels, level < levelSlots levels) → Script.InLevelOrder columns graph ps) := by
  unfold Script.ofColumns at hscript
  rw [hcolumns, ok_bind, hgraph, ok_bind] at hscript
  obtain ⟨ps, hps, htext, horder, hpieces⟩ := Script.pieces_spec hscript
  have hiff := Script.inLevelOrder_iff hnames horder
  refine ⟨ps, _, hps, htext, hpieces, fun c hc d hd hpos heq => ?_, rfl, hiff,
    eight_le_levelSlots _, fun h => hiff.mpr ((pairwise_levelOrder h).filter _)⟩
  have hsame : ¬ Script.LevelBefore columns graph d.name c.name := fun h => by
    simpa [heq] using (nodup_levelOrder _).sublist h
  rw [Script.introducedBefore_iff hnames horder hc hd hpos.ne']
  simp [heq, hpos.ne', hsame]

theorem crossed_in_level_order : ∃ ps,
    Script.pieces (crossedMembers.map Column.ofMember) crossedGraph crossedTypes "t" = .ok ps
      ∧ String.join (ps.map Script.Piece.text) = crossedScript.text
      ∧ Script.IntroducedBefore ps "c" "d" := by
  obtain ⟨ps, levels, hps, htext, -, -, rfl, -, hslots, horder⟩ :=
    additions_in_level_order_iff (by rfl) (by decide) graph_crossed script_crossed
  have hlevels : ∀ level ∈ (crossedMembers.map Column.ofMember).map
      (fun c => crossedGraph.outgoing c.name), level < 8 := by decide
  have hd : Column.ofMember crossedMembers[2] ∈ crossedMembers.map Column.ofMember :=
    List.mem_map_of_mem (List.getElem_mem _)
  have hc : Column.ofMember crossedMembers[3] ∈ crossedMembers.map Column.ofMember :=
    List.mem_map_of_mem (List.getElem_mem _)
  have hbelow := horder (fun level hlevel => (hlevels level hlevel).trans_le hslots)
  exact ⟨ps, hps, htext, hbelow _ hd _ hc (by decide) (by decide)⟩

/-! ## Eight references before one

The levels are collected in the order `0, 8, 1`. Slot 0 is taken when 8 comes, so 8 goes to slot 1,
and 1 has to look for another slot behind it. -/

def wideNames : List String := ["a", "b", "c", "d", "e", "f", "g", "h"]

def wideMembers : List (String × Value) :=
  wideNames.map (fun name =>
      (name, .object [("type", .str "number"), ("value", .int 1), ("sql", .int 1)]))
    ++ [("total", .object [("type", .str "function"), ("name", .str "SUM"),
        ("arguments", .list [.object
          [("type", .str "cell_range"), ("columns", .list (wideNames.map .str))]]),
        ("sql", .str "a + b + c + d + e + f + g + h")]),
      ("copy", .object [("type", .str "cell"), ("column", .str "a"), ("sql", .str "a")])]

def wideTypes : Value :=
  .object (wideMembers.map (fun m => (m.1, .object [("type", .str "INTEGER")])))

def wideGraph : DependencyGraph :=
  { names := wideNames ++ ["total", "copy"]
    edges := wideNames.map (fun name => ("total", name)) ++ [("copy", "a")] }

theorem graph_wide :
    DependencyGraph.ofColumns (wideMembers.map ofMember) = .ok wideGraph := by rfl

def wideScript : Script where
  create := "CREATE TABLE IF NOT EXISTS t (a INTEGER, b INTEGER, c INTEGER, d INTEGER, " ++
    "e INTEGER, f INTEGER, g INTEGER, h INTEGER);"
  additions :=
    [(8, ["ALTER TABLE t ADD COLUMN total INTEGER GENERATED ALWAYS AS " ++
      "a + b + c + d + e + f + g + h STORED;"]),
     (1, ["ALTER TABLE t ADD COLUMN copy INTEGER GENERATED ALWAYS AS a STORED;"])]

set_option maxRecDepth 10000 in
theorem script_wide :
    Script.ofGraph (wideMembers.map ofMember) wideGraph wideTypes "t" = .ok wideScript := by
  have hsorted : (((wideMembers.map ofMember).zip ((wideMembers.map ofMember).map
      (wideGraph.outgoing ·.name))).filter (·.2 ≠ 0)).mergeSort
        (fun a b => a.2 ≤ b.2) =
      [(ofMember wideMembers[9], 1), (ofMember wideMembers[8], 8)] :=
    mergeSort_pair rfl
  unfold Script.ofGraph
  simp only [hsorted]
  with_unfolding_all rfl

set_option maxRecDepth 10000 in
theorem wide_total_added_first :
    Script.ofColumns (.object wideMembers) wideTypes "t" = .ok wideScript
      ∧ DependencyGraph.ofColumns (wideMembers.map Column.ofMember) = .ok wideGraph
      ∧ wideGraph.outgoing "copy" = 1 ∧ wideGraph.outgoing "total" = 8
      ∧ ∃ ps, Script.pieces (wideMembers.map Column.ofMember) wideGraph wideTypes "t" = .ok ps
        ∧ String.join (ps.map Script.Piece.text) = wideScript.text
        ∧ ¬ Script.InLevelOrder (wideMembers.map Column.ofMember) wideGraph ps := by
  obtain ⟨ps, hps, htext, horder, -⟩ := Script.pieces_spec script_wide
  refine ⟨script_wide, graph_wide, by decide, by decide, ps, hps, htext, ?_⟩
  rw [Script.inLevelOrder_iff (by decide) horder]
  decide

end SheetIntake
