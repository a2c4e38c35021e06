import SheetIntake.Proofs.ScriptLayout

/-!
# When a reference is introduced before its use

A column that is computed from another one can only be added to a table that has the other one
already. This module says exactly when a script keeps to that.

The statements are grouped by the number of references of their columns, and the groups come in the
order of the level table. So a reference is introduced in time when it has no references itself, when
its group comes first, or when it is in the same group and stands first in the family. Depth in the
graph plays no part: a column with one reference comes before a column with two, also when it is
computed from it (`reference_added_after_use`).
-/

namespace SheetIntake

open Outcome

/-! ## Pairs in order -/

variable {α : Type} {a b : α} {xs : List α}

theorem pair_sublist_append {ys : List α} : [a, b].Sublist (xs ++ ys) ↔
      [a, b].Sublist xs ∨ (a ∈ xs ∧ b ∈ ys) ∨ [a, b].Sublist ys := by
  rw [List.sublist_append_iff]
  constructor
  · rintro ⟨l, r, heq, hl, hr⟩
    match l, heq with
    | [], heq => exact .inr (.inr (heq ▸ hr))
    | [c], heq =>
      obtain ⟨rfl, rfl⟩ := List.cons.inj heq
      exact .inr (.inl ⟨List.singleton_sublist.mp hl, List.singleton_sublist.mp hr⟩)
    | c :: d :: l, heq =>
      obtain ⟨rfl, rfl, rfl, rfl⟩ : a = c ∧ b = d ∧ l = [] ∧ r = [] := by simpa using heq
      exact .inl hl
  · rintro (h | ⟨ha, hb⟩ | h)
    · exact ⟨[a, b], [], rfl, h, List.nil_sublist _⟩
    · exact ⟨[a], [b], rfl, List.singleton_sublist.mpr ha, List.singleton_sublist.mpr hb⟩
    · exact ⟨[], [a, b], rfl, List.nil_sublist _, h⟩

theorem pair_sublist_groups (group : α → Nat) {order : List Nat} (hnodup : order.Nodup)
    (ha : a ∈ xs) (hb : b ∈ xs) :
    [a, b].Sublist (order.flatMap (fun k => xs.filter (group · = k))) ↔
      [group a, group b].Sublist order ∨
      (group a = group b ∧ group a ∈ order ∧ [a, b].Sublist xs) := by
  induction order with
  | nil => simp
  | cons k rest ih =>
    obtain ⟨hk, hnodup⟩ := List.nodup_cons.mp hnodup
    have hgroup : [a, b].Sublist (xs.filter (group · = k)) ↔
        group a = k ∧ group b = k ∧ [a, b].Sublist xs := by
      constructor
      · intro h
        have hall : ∀ x ∈ [a, b], group x = k := fun x hx => by
          simpa using (List.mem_filter.mp (h.subset hx)).2
        exact ⟨hall a (by simp), hall b (by simp), h.trans List.filter_sublist⟩
      · rintro ⟨hga, hgb, h⟩
        simpa [hga, hgb] using h.filter (fun x => decide (group x = k))
    have hmem : b ∈ rest.flatMap (fun j => xs.filter (group · = j)) ↔ group b ∈ rest := by
      simp [List.mem_flatMap, List.mem_filter, hb]
    rw [List.flatMap_cons, pair_sublist_append, hgroup, hmem, ih hnodup, List.sublist_cons_iff,
      List.mem_filter, List.mem_cons]
    grind

theorem pair_sublist_map {β : Type} {f : α → β} (hnodup : (xs.map f).Nodup) (ha : a ∈ xs)
    (hb : b ∈ xs) : [f a, f b].Sublist (xs.map f) ↔ [a, b].Sublist xs := by
  constructor
  · intro h
    obtain ⟨l, hl, heq⟩ := List.sublist_map_iff.mp h
    obtain ⟨a', l, rfl, ha', heq⟩ := List.map_eq_cons_iff.mp heq.symm
    obtain ⟨b', l, rfl, hb', heq⟩ := List.map_eq_cons_iff.mp heq
    obtain rfl := List.map_eq_nil_iff.mp heq
    obtain rfl := List.inj_on_of_nodup_map hnodup (hl.subset (by simp)) ha ha'
    obtain rfl := List.inj_on_of_nodup_map hnodup (hl.subset (by simp)) hb hb'
    exact hl
  · exact fun h => h.map f

namespace Script

/-- A column is introduced before another one by pieces of a text. -/
def IntroducedBefore (ps : List Piece) (first second : String) : Prop :=
  [first, second].Sublist (ps.filterMap Piece.introduces)

instance (ps : List Piece) (first second : String) : Decidable (IntroducedBefore ps first second) :=
  inferInstanceAs (Decidable ([first, second].Sublist _))

/-- The number of references of a column comes before that of another one in the level table. -/
def LevelBefore (columns : List Column) (graph : DependencyGraph) (first second : String) : Prop :=
  [graph.outgoing first, graph.outgoing second].Sublist
    (levelOrder (columns.map (fun c => graph.outgoing c.name)))

theorem pair_sublist_introductions {columns : List Column} {graph : DependencyGraph} {c d : Column}
    (hc : c ∈ columns) (hd : d ∈ columns) (hpos : graph.outgoing c.name ≠ 0) :
    [d, c].Sublist (created columns graph ++ added columns graph) ↔
      graph.outgoing d.name = 0 ∨ LevelBefore columns graph d.name c.name ∨
      (graph.outgoing d.name = graph.outgoing c.name ∧ [d, c].Sublist columns) := by
  have hcadded : c ∈ added columns graph := mem_added.mpr ⟨hc, hpos⟩
  by_cases hzero : graph.outgoing d.name = 0
  · have hdcreated : d ∈ created columns graph := by simp [created, hd, hzero]
    simp only [hzero, true_or, iff_true]
    exact pair_sublist_append.mpr (.inr (.inl ⟨hdcreated, hcadded⟩))
  · have hdcreated : d ∉ created columns graph := by simp [created, hzero]
    have hpair : ¬ [d, c].Sublist (created columns graph) := fun h => hdcreated (h.subset (by simp))
    have hmem : graph.outgoing d.name ∈ addedLevels columns graph :=
      mem_addedLevels.mpr ⟨hzero, d, hd, rfl⟩
    -- levels other than zero are in the same order among the levels that are added
    have hlevels : [graph.outgoing d.name, graph.outgoing c.name].Sublist (addedLevels columns graph) ↔
        LevelBefore columns graph d.name c.name := by
      constructor
      · exact fun h => h.trans List.filter_sublist
      · intro h
        simpa [addedLevels, hzero, hpos] using h.filter (fun level => decide (level ≠ 0))
    rw [pair_sublist_append, added, pair_sublist_groups (graph.outgoing ·.name)
      (nodup_addedLevels columns graph) hd hc, hlevels]
    simp [hpair, hdcreated, hzero, hmem]

end Script

/-! ## The order of introductions in the text -/

/-- For the columns of any document that has a script, and any column `c` that mentions a column
`d`: the text of the script introduces `d` before `c` exactly when `d` has no references, or its
number of references comes before that of `c` in the level table, or the numbers are equal and `d`
stands before `c` in the document. Each column is introduced by one piece of the text. -/
theorem introduced_before_iff {definitions types : Value} {table : String} {columns : List Column}
    {graph : DependencyGraph} {script : Script} (hcolumns : Column.ofValue definitions = .ok columns)
    (hnames : (columns.map Column.name).Nodup)
    (hgraph : DependencyGraph.ofColumns columns = .ok graph)
    (hscript : Script.ofColumns definitions types table = .ok script) :
    ∃ ps, Script.pieces columns graph types table = .ok ps
      ∧ String.join (ps.map Script.Piece.text) = script.text
      ∧ (ps.filterMap Script.Piece.introduces).Perm (columns.map Column.name)
      ∧ (∀ p ∈ ps, ∀ name, p.introduces = some name →
          ∃ c ∈ columns, c.name = name ∧ Script.introduction types table graph c = .ok p)
      ∧ ∀ c ∈ columns, ∀ d ∈ columns, c.definition.Mentions d.name →
          (Script.IntroducedBefore ps d.name c.name ↔
            graph.outgoing d.name = 0 ∨ Script.LevelBefore columns graph d.name c.name ∨
            (graph.outgoing d.name = graph.outgoing c.name
              ∧ [d.name, c.name].Sublist (columns.map Column.name))) := by
  unfold Script.ofColumns at hscript
  rw [hcolumns, ok_bind, hgraph, ok_bind] at hscript
  obtain ⟨ps, hps, htext, horder, hpieces⟩ := Script.pieces_spec hscript
  have hperm := Script.created_append_added_perm columns graph
  refine ⟨ps, hps, htext, horder ▸ hperm.map Column.name, hpieces, fun c hc d hd hmention => ?_⟩
  have hpos : graph.outgoing c.name ≠ 0 :=
    ((DependencyGraph.outgoing_pos hgraph).mpr ⟨c, hc, rfl, d.name, hmention⟩).ne'
  rw [Script.IntroducedBefore, horder, pair_sublist_map ((hperm.map Column.name).nodup_iff.mpr hnames)
    (hperm.mem_iff.mpr hd) (hperm.mem_iff.mpr hc), Script.pair_sublist_introductions hc hd hpos,
    pair_sublist_map hnames hd hc]

/-! ## A column that is added too early

`d` is computed from two columns and `c` from `d` alone, so `c` has the lower level and its statement
comes first. -/

/-- The members of the document: two constants, their sum, and a copy of the sum. -/
def crossedMembers : List (String × Value) :=
  let reference (column : String) : Value :=
    .object [("type", .str "cell"), ("column", .str column), ("sql", .str column)]
  [("a", .object [("type", .str "number"), ("value", .int 1), ("sql", .int 1)]),
    ("b", .object [("type", .str "number"), ("value", .int 2), ("sql", .int 2)]),
    ("d", .object [("type", .str "binary-expression"), ("operator", .str "+"),
      ("left", reference "a"), ("right", reference "b"), ("sql", .str "(a) + (b)")]),
    ("c", reference "d")]

def crossedTypes : Value :=
  .object (crossedMembers.map (fun m => (m.1, .object [("type", .str "INTEGER")])))

def crossedGraph : DependencyGraph :=
  { names := ["a", "b", "d", "c"], edges := [("d", "a"), ("d", "b"), ("c", "d")] }

def crossedScript : Script where
  create := "CREATE TABLE IF NOT EXISTS t (a INTEGER, b INTEGER);"
  additions := [(1, ["ALTER TABLE t ADD COLUMN c INTEGER GENERATED ALWAYS AS d STORED;"]),
    (2, ["ALTER TABLE t ADD COLUMN d INTEGER GENERATED ALWAYS AS (a) + (b) STORED;"])]

theorem graph_crossed :
    DependencyGraph.ofColumns (crossedMembers.map Column.ofMember) = .ok crossedGraph := rfl

theorem mergeSort_pair {le : α → α → Bool} (h : le a b = false) : [a, b].mergeSort le = [b, a] := by
  simp [List.mergeSort, List.MergeSort.Internal.splitInTwo, h]

set_option maxRecDepth 4000 in
theorem script_crossed :
    Script.ofColumns (.object crossedMembers) crossedTypes "t" = .ok crossedScript := by
  -- the sort is the one step that does not compute by itself
  have hsorted : (((crossedMembers.map Column.ofMember).zip ((crossedMembers.map Column.ofMember).map
      (crossedGraph.outgoing ·.name))).filter (·.2 ≠ 0)).mergeSort
        (fun a b => a.2 ≤ b.2) =
      [(Column.ofMember crossedMembers[3], 1), (Column.ofMember crossedMembers[2], 2)] :=
    mergeSort_pair rfl
  show Script.ofGraph (crossedMembers.map Column.ofMember) crossedGraph crossedTypes "t" = _
  unfold Script.ofGraph
  simp only [hsorted]
  with_unfolding_all rfl

/-- What the created columns come to: `a` is introduced before `d`. -/
theorem introduced_before_crossed :
    ∃ ps, Script.pieces (crossedMembers.map Column.ofMember) crossedGraph crossedTypes "t" = .ok ps
      ∧ String.join (ps.map Script.Piece.text) = crossedScript.text
      ∧ Script.IntroducedBefore ps "a" "d" := by
  obtain ⟨ps, hps, htext, -, -, horder⟩ :=
    introduced_before_iff (by rfl) (by decide) graph_crossed script_crossed
  have hd : Column.ofMember crossedMembers[2] ∈ crossedMembers.map Column.ofMember :=
    List.mem_map_of_mem (List.getElem_mem _)
  have ha : Column.ofMember crossedMembers[0] ∈ crossedMembers.map Column.ofMember :=
    List.mem_map_of_mem (List.getElem_mem _)
  exact ⟨ps, hps, htext, (horder _ hd _ ha (.left .cell)).mpr (.inl rfl)⟩

set_option maxRecDepth 4000 in
/-- `c` mentions `d`, and the text of the script does not introduce `d` before `c`. -/
theorem reference_added_after_use :
    Script.ofColumns (.object crossedMembers) crossedTypes "t" = .ok crossedScript
      ∧ (Column.ofMember crossedMembers[3]).name = "c"
      ∧ (Column.ofMember crossedMembers[3]).definition.Mentions "d"
      ∧ ∃ ps, Script.pieces (crossedMembers.map Column.ofMember) crossedGraph crossedTypes "t" = .ok ps
        ∧ String.join (ps.map Script.Piece.text) = crossedScript.text
        ∧ ¬ Script.IntroducedBefore ps "d" "c" := by
  refine ⟨script_crossed, rfl, .cell, ?_⟩
  refine ⟨[.plain "CREATE TABLE IF NOT EXISTS t (", ⟨some "a", "a INTEGER"⟩, .plain ", ",
    ⟨some "b", "b INTEGER"⟩, .plain ");", .plain "\n", .plain "\n",
    ⟨some "c", "ALTER TABLE t ADD COLUMN c INTEGER GENERATED ALWAYS AS d STORED;"⟩, .plain "\n",
    ⟨some "d", "ALTER TABLE t ADD COLUMN d INTEGER GENERATED ALWAYS AS (a) + (b) STORED;"⟩],
    ?_, ?_, ?_⟩
  · with_unfolding_all rfl
  · rfl
  · decide

end SheetIntake
