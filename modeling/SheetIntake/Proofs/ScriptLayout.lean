import Mathlib.Data.List.Perm.Basic
import SheetIntake.Ddl.Script
import SheetIntake.Proofs.LevelTable
import SheetIntake.Proofs.References

/-!
# The layout of a script

A script introduces every column of its family once: a column without references in the statement
that creates the table, any other column in a statement of its own. This module says in which order.

## The parts

* **`created`**, **`added`** — the columns of the two kinds, in the order of their introductions.
* **`declaration_eq_ok`**, **`addition_eq_ok`** — the texts that introduce a column.
-/

namespace SheetIntake

open Outcome

namespace Script

/-! ## The two kinds of columns -/

def created (columns : List Column) (graph : DependencyGraph) : List Column :=
  columns.filter (fun c => graph.outgoing c.name = 0)

/-- The levels of the columns that are added to the table, in the order of the level table. -/
def addedLevels (columns : List Column) (graph : DependencyGraph) : List Nat :=
  (levelOrder (columns.map (fun c => graph.outgoing c.name))).filter (fun level => level ≠ 0)

/-- The columns that are added to the table, level by level. -/
def added (columns : List Column) (graph : DependencyGraph) : List Column :=
  (addedLevels columns graph).flatMap
    (fun level => columns.filter (fun c => graph.outgoing c.name = level))

theorem nodup_addedLevels (columns : List Column) (graph : DependencyGraph) :
    (addedLevels columns graph).Nodup :=
  (nodup_levelOrder _).filter _

variable {columns : List Column} {graph : DependencyGraph}

theorem mem_addedLevels {level : Nat} :
    level ∈ addedLevels columns graph ↔ level ≠ 0 ∧ ∃ c ∈ columns, graph.outgoing c.name = level := by
  simp [addedLevels, mem_levelOrder, and_comm]

variable {c : Column}

theorem mem_added : c ∈ added columns graph ↔ c ∈ columns ∧ graph.outgoing c.name ≠ 0 := by
  simp only [added, List.mem_flatMap, List.mem_filter, mem_addedLevels, decide_eq_true_eq]
  constructor
  · rintro ⟨level, ⟨hzero, -⟩, hc, rfl⟩
    exact ⟨hc, hzero⟩
  · rintro ⟨hc, hzero⟩
    exact ⟨graph.outgoing c.name, ⟨hzero, c, hc, rfl⟩, hc, rfl⟩

theorem mem_created : c ∈ created columns graph ↔ c ∈ columns ∧ graph.outgoing c.name = 0 := by
  simp [created]

theorem flatMap_filter_perm {α : Type} (group : α → Nat) (order : List Nat) (hnodup : order.Nodup)
    (xs : List α) (hmem : ∀ x ∈ xs, group x ∈ order) :
    (order.flatMap (fun k => xs.filter (group · = k))).Perm xs := by
  induction order generalizing xs with
  | nil =>
    cases xs with
    | nil => exact .refl _
    | cons x xs => cases hmem x (.head _)
  | cons k rest ih =>
    obtain ⟨hk, hnodup⟩ := List.nodup_cons.mp hnodup
    -- the items of the other groups
    let others := xs.filter (fun x => !decide (group x = k))
    have hothers : rest.flatMap (fun j => xs.filter (group · = j)) =
        rest.flatMap (fun j => others.filter (group · = j)) := by
      apply List.flatMap_congr
      intro j hj
      rw [List.filter_filter]
      apply List.filter_congr
      intro x _
      have hjk : j ≠ k := fun h => hk (h ▸ hj)
      by_cases hx : group x = j <;> simp [hx, hjk]
    have hrest : (rest.flatMap (fun j => others.filter (group · = j))).Perm others := by
      apply ih hnodup
      intro x hx
      obtain ⟨hx, hne⟩ := List.mem_filter.mp hx
      exact (List.mem_cons.mp (hmem x hx)).resolve_left (by simpa using hne)
    rw [List.flatMap_cons, hothers]
    exact (hrest.append_left _).trans (List.filter_append_perm (fun x => decide (group x = k)) xs)

theorem created_append_added_perm (columns : List Column) (graph : DependencyGraph) :
    (created columns graph ++ added columns graph).Perm columns := by
  let rest := columns.filter (fun c => !decide (graph.outgoing c.name = 0))
  have hadded : added columns graph = (addedLevels columns graph).flatMap
      (fun level => rest.filter (graph.outgoing ·.name = level)) := by
    apply List.flatMap_congr
    intro level hlevel
    rw [List.filter_filter]
    apply List.filter_congr
    intro c _
    have hzero := (mem_addedLevels.mp hlevel).1
    by_cases hc : graph.outgoing c.name = level <;> simp [hc, hzero]
  have hperm : (added columns graph).Perm rest := by
    rw [hadded]
    apply flatMap_filter_perm _ _ (nodup_addedLevels columns graph)
    intro c hc
    obtain ⟨hc, hne⟩ := List.mem_filter.mp hc
    exact mem_addedLevels.mpr ⟨by simpa using hne, c, hc, rfl⟩
  exact (hperm.append_left _).trans
    (List.filter_append_perm (fun c : Column => decide (graph.outgoing c.name = 0)) columns)

/-! ## The statements of a script -/

theorem filter_mergeSort {α : Type} (key : α → Nat) (xs : List α) (k : Nat) :
    (xs.mergeSort (fun a b => key a ≤ key b)).filter (key · = k) =
      xs.filter (key · = k) := by
  have hsame : (xs.filter (key · = k)).Pairwise (fun a b => decide (key a ≤ key b)) := by
    apply List.pairwise_of_forall_mem_list
    intro a ha b hb
    rw [List.mem_filter, decide_eq_true_eq] at ha hb
    simp [ha.2, hb.2]
  have hsub : (xs.filter (key · = k)).Sublist (xs.mergeSort (fun a b => key a ≤ key b)) := by
    apply List.sublist_mergeSort _ _ hsame List.filter_sublist
    · intro a b c hab hbc
      simp only [decide_eq_true_eq] at hab hbc ⊢
      exact hab.trans hbc
    · intro a b
      simpa using Nat.le_total (key a) (key b)
  have hsub' := hsub.filter (fun x => decide (key x = k))
  simp only [List.filter_filter, Bool.and_self] at hsub'
  exact (hsub'.eq_of_length ((List.mergeSort_perm _ _).filter _).length_eq.symm).symm

theorem zip_levels (level : Column → Nat) (columns : List Column) :
    columns.zip (columns.map level) = columns.map (fun c => (c, level c)) := by
  conv_lhs => rw [← List.map_id columns, List.map_map]
  exact List.zip_map'

variable {types : Value} {table : String} {script : Script}

/-- The script of a family, when there is one, level by level: the declarations of the created columns,
and for each level of the added ones the statements of its columns, in the order of the family. -/
theorem groups_of_ofGraph (h : ofGraph columns graph types table = .ok script) : graph.isAcyclic
      ∧ (∃ declarations,
          List.Forall₂ (fun c s => declaration types c.name = .ok s) (created columns graph)
            declarations ∧ script.create = creation table declarations)
      ∧ List.Forall₂ (fun level group => group.1 = level
          ∧ List.Forall₂ (fun c s => addition types table c = .ok s)
            (columns.filter (graph.outgoing ·.name = level)) group.2)
        (addedLevels columns graph) script.additions := by
  unfold ofGraph at h
  split at h
  · cases h
  next hacyclic =>
  let withLevel (c : Column) : Column × Nat := (c, graph.outgoing c.name)
  have hzip : columns.zip (columns.map (graph.outgoing ·.name)) = columns.map withLevel :=
    zip_levels _ columns
  simp only [hzip] at h
  obtain ⟨declarations, hdeclarations, h⟩ := bind_eq_ok.mp h
  obtain ⟨statements, hstatements, h⟩ := bind_eq_ok.mp h
  cases h
  -- the columns of a level, picked from the sorted list
  have hpick (k : Nat) (hk : k ≠ 0) :
      (((columns.map withLevel).filter (·.2 ≠ 0)).mergeSort (fun a b => a.2 ≤ b.2)).filter
          (·.2 = k) =
        (columns.filter (graph.outgoing ·.name = k)).map withLevel := by
    rw [filter_mergeSort Prod.snd, List.filter_filter, List.filter_map]
    congr 1
    apply List.filter_congr
    intro c _
    by_cases hc : graph.outgoing c.name = k <;> simp [withLevel, hc, hk]
  have hlevel (k : Nat) (hk : k ≠ 0) :
      List.Forall₂ (fun c s => addition types table c = .ok s)
        (columns.filter (graph.outgoing ·.name = k))
        ((statements.filter (·.1 = k)).map Prod.snd) := by
    have hpairs := List.rel_filter (p := fun c => c.2 = k) (q := fun s => s.1 = k)
      (by
        intro c s hs
        obtain ⟨text, -, hs⟩ := bind_eq_ok.mp hs
        cases hs
        rfl)
      (mapM_eq_ok.mp hstatements)
    rw [hpick k hk, List.forall₂_map_left_iff] at hpairs
    rw [List.forall₂_map_right_iff]
    refine hpairs.imp (fun c s hs => ?_)
    obtain ⟨text, htext, hs⟩ := bind_eq_ok.mp hs
    cases hs
    exact htext
  refine ⟨by simpa using hacyclic, ⟨declarations, ?_, rfl⟩, ?_⟩
  · rw [List.filter_map, List.mapM_map] at hdeclarations
    exact mapM_eq_ok.mp hdeclarations
  · rw [List.forall₂_map_right_iff]
    exact List.forall₂_same.mpr (fun k hk => ⟨rfl, hlevel k (mem_addedLevels.mp hk).1⟩)

theorem ofGraph_eq_ok (h : ofGraph columns graph types table = .ok script) :
    ∃ declarations statements,
      List.Forall₂ (fun c s => declaration types c.name = .ok s) (created columns graph) declarations
      ∧ List.Forall₂ (fun c s => addition types table c = .ok s) (added columns graph) statements
      ∧ script.create = creation table declarations
      ∧ script.additions.flatMap Prod.snd = statements := by
  obtain ⟨-, ⟨declarations, hdeclarations, hcreate⟩, hgroups⟩ := groups_of_ofGraph h
  refine ⟨declarations, _, hdeclarations, ?_, hcreate, rfl⟩
  rw [added]
  -- level by level
  generalize addedLevels columns graph = levels at hgroups ⊢
  generalize script.additions = groups at hgroups ⊢
  induction hgroups with
  | nil => exact .nil
  | cons hgroup _ ih =>
    exact List.rel_append hgroup.2 ih

theorem text_eq (script : Script) : script.text = script.create ++ "\n" ++
      String.join ((script.additions.flatMap Prod.snd).map ("\n" ++ ·)) := by
  rw [text, List.map_flatMap]

/-! ## Texts of declarations and additions -/

variable {name : String}

theorem declaration_eq_ok {s : String} : declaration types name = .ok s ↔
      ∃ type, columnType types name = .ok type ∧ name ++ " " ++ type = s := by
  simp only [declaration, bind_eq_ok, pure_eq_ok]

theorem addition_eq_ok {s : String} : addition types table c = .ok s ↔
      ∃ type sql, columnType types c.name = .ok type ∧ c.sql = .ok sql
        ∧ "ALTER TABLE " ++ table ++ " ADD COLUMN " ++ (c.name ++ " " ++ type) ++
          " GENERATED ALWAYS AS " ++ sql.text ++ " STORED;" = s := by
  simp only [addition, bind_eq_ok, pure_eq_ok, declaration_eq_ok]
  grind

/-! ## When there is a script -/

/-- A column has a type: its entry says which. -/
def Typed (types : Value) (name : String) : Prop :=
  ∃ entry type, types.member name = .ok (.object entry) ∧ Assoc.get? "type" entry = some type

theorem exists_declaration_iff :
    (∃ text, declaration types name = .ok text) ↔ Typed types name := by
  constructor
  · rintro ⟨text, h⟩
    obtain ⟨_, h, -⟩ := bind_eq_ok.mp h
    obtain ⟨entry, hentry, h⟩ := bind_eq_ok.mp h
    obtain ⟨type, htype, -⟩ := bind_eq_ok.mp h
    -- only an object has members
    cases entry with
    | object entry =>
      refine ⟨entry, type, hentry, ?_⟩
      rw [Value.member] at htype
      cases hget : Assoc.get? "type" entry with
      | none => rw [hget] at htype; cases htype
      | some found => rw [hget] at htype; rw [Except.ok.inj htype]
    | _ => cases htype
  · rintro ⟨entry, type, hentry, htype⟩
    have hmember : (Value.object entry).member "type" = .ok type := by rw [Value.member, htype]
    rw [declaration, columnType, hentry, ok_bind, hmember, ok_bind, Value.memberOr, ok_bind]
    exact ⟨_, rfl⟩

theorem exists_addition_iff : (∃ text, addition types table c = .ok text) ↔
      Typed types c.name ∧ ∃ sql, c.sql = .ok sql := by
  rw [← exists_declaration_iff, addition]
  constructor
  · rintro ⟨text, h⟩
    obtain ⟨declared, hdeclared, h⟩ := bind_eq_ok.mp h
    obtain ⟨sql, hsql, -⟩ := bind_eq_ok.mp h
    exact ⟨⟨declared, hdeclared⟩, sql, hsql⟩
  · rintro ⟨⟨declared, hdeclared⟩, sql, hsql⟩
    rw [hdeclared, ok_bind, hsql, ok_bind]
    exact ⟨_, rfl⟩

theorem exists_ofGraph_eq_ok (hacyclic : graph.isAcyclic)
    (htypes : ∀ c ∈ columns, Typed types c.name)
    (hsql : ∀ c ∈ columns, graph.outgoing c.name ≠ 0 → ∃ sql, c.sql = .ok sql) :
    ∃ script, ofGraph columns graph types table = .ok script := by
  -- the columns that are gone through are columns of the family with their levels
  have hmem {c : Column × Nat} (hc : c ∈ columns.zip (columns.map (graph.outgoing ·.name))) :
      c.1 ∈ columns ∧ graph.outgoing c.1.name = c.2 := by
    rw [zip_levels] at hc
    obtain ⟨d, hd, rfl⟩ := List.mem_map.mp hc
    exact ⟨hd, rfl⟩
  unfold ofGraph
  rw [hacyclic, Bool.not_true, if_neg Bool.false_ne_true]
  obtain ⟨declarations, hdeclarations⟩ := exists_mapM_eq_ok
    (f := fun c : Column × Nat => declaration types c.1.name)
    (fun c hc => exists_declaration_iff.mpr (htypes c.1 (hmem (List.mem_of_mem_filter hc)).1))
  have hadded : ∀ c ∈ ((columns.zip (columns.map (graph.outgoing ·.name))).filter
      (·.2 ≠ 0)).mergeSort (fun a b => a.2 ≤ b.2), ∃ s, (do
        let statement ← addition types table c.1
        return (c.2, statement) : Except Fault (Nat × String)) = .ok s := by
    intro c hc
    obtain ⟨hc, hpos⟩ := List.mem_filter.mp (List.mem_mergeSort.mp hc)
    obtain ⟨hc, hlevel⟩ := hmem hc
    rw [← hlevel, decide_eq_true_eq] at hpos
    obtain ⟨text, htext⟩ := exists_addition_iff.mpr ⟨htypes c.1 hc, hsql c.1 hc hpos⟩
    exact ⟨(c.2, text), by rw [htext, ok_bind]; rfl⟩
  obtain ⟨statements, hstatements⟩ := exists_mapM_eq_ok hadded
  exact ⟨_, bind_eq_ok.mpr ⟨declarations, hdeclarations,
    bind_eq_ok.mpr ⟨statements, hstatements, rfl⟩⟩⟩

theorem exists_ofGraph_iff : (∃ script, ofGraph columns graph types table = .ok script) ↔
      graph.isAcyclic ∧ (∀ c ∈ columns, Typed types c.name)
        ∧ ∀ c ∈ columns, graph.outgoing c.name ≠ 0 → ∃ sql, c.sql = .ok sql := by
  refine ⟨?_, fun ⟨hacyclic, htypes, hsql⟩ => exists_ofGraph_eq_ok hacyclic htypes hsql⟩
  rintro ⟨script, h⟩
  have hacyclic := (groups_of_ofGraph h).1
  obtain ⟨declarations, statements, hdeclarations, hstatements, -, -⟩ := ofGraph_eq_ok h
  have hcreated : ∀ c ∈ created columns graph, Typed types c.name := by
    intro c hc
    obtain ⟨text, -, htext⟩ := exists_of_mapM_eq_ok (mapM_eq_ok.mpr hdeclarations) hc
    exact exists_declaration_iff.mp ⟨text, htext⟩
  have hadded : ∀ c ∈ added columns graph, Typed types c.name ∧ ∃ sql, c.sql = .ok sql := by
    intro c hc
    obtain ⟨text, -, htext⟩ := exists_of_mapM_eq_ok (mapM_eq_ok.mpr hstatements) hc
    exact exists_addition_iff.mp ⟨text, htext⟩
  refine ⟨hacyclic, fun c hc => ?_, fun c hc hpos => (hadded c (mem_added.mpr ⟨hc, hpos⟩)).2⟩
  by_cases hzero : graph.outgoing c.name = 0
  · exact hcreated c (by simp [created, hc, hzero])
  · exact (hadded c (mem_added.mpr ⟨hc, hzero⟩)).1

/-! ## The text in pieces -/

/-- A piece of a script's text, and the column that it introduces, if it introduces one. -/
structure Piece where
  introduces : Option String
  text : String
  deriving DecidableEq

def Piece.plain (text : String) : Piece :=
  { introduces := none, text }

@[simp]
theorem Piece.introduces_plain (text : String) : (Piece.plain text).introduces = none := rfl

@[simp]
theorem Piece.text_plain (text : String) : (Piece.plain text).text = text := rfl

/-- What introduces a column: its declaration where it is created with the table, and else the
statement that adds it. -/
def introduction (types : Value) (table : String) (graph : DependencyGraph) (c : Column) :
    Except Fault Piece :=
  (if graph.outgoing c.name = 0 then declaration types c.name else addition types table c).map
    (fun text => { introduces := some c.name, text })

theorem introduces_introduction {p : Piece} (h : introduction types table graph c = .ok p) :
    p.introduces = some c.name := by
  obtain ⟨text, -, rfl⟩ := map_eq_ok.mp h
  rfl

def led (lead : String) (ps : List Piece) : List Piece :=
  ps.flatMap (fun p => [.plain lead, p])

/-- Introductions of columns with the text around them. -/
def framed (table : String) (declarations statements : List Piece) : List Piece :=
  .plain ("CREATE TABLE IF NOT EXISTS " ++ table ++ " (") ::
    ((match declarations with
      | [] => []
      | d :: rest => d :: led ", " rest ++ [.plain ");"]) ++
    .plain "\n" :: led "\n" statements)

def pieces (columns : List Column) (graph : DependencyGraph) (types : Value) (table : String) :
    Except Fault (List Piece) := do
  let declarations ← (created columns graph).mapM (introduction types table graph)
  let statements ← (added columns graph).mapM (introduction types table graph)
  return framed table declarations statements

theorem join_led (lead : String) (ps : List Piece) : String.join ((led lead ps).map Piece.text) =
      String.join ((ps.map Piece.text).map (lead ++ ·)) := by
  induction ps with
  | nil => rfl
  | cons p rest ih =>
    have hcons : led lead (p :: rest) = .plain lead :: p :: led lead rest := rfl
    simp only [hcons, List.map_cons, String.join_cons, Piece.text_plain, ih, String.append_assoc]

theorem filterMap_led (lead : String) (ps : List Piece) :
    (led lead ps).filterMap Piece.introduces = ps.filterMap Piece.introduces := by
  induction ps with
  | nil => rfl
  | cons p rest ih =>
    have hcons : led lead (p :: rest) = .plain lead :: p :: led lead rest := rfl
    rw [hcons, List.filterMap_cons_none (Piece.introduces_plain lead), List.filterMap_cons,
      List.filterMap_cons, ih]

theorem intercalate_cons (separator t : String) (ts : List String) :
    String.intercalate separator (t :: ts) =
      t ++ String.join (ts.map (separator ++ ·)) := by
  induction ts generalizing t with
  | nil => simp
  | cons u us ih =>
    rw [String.intercalate_cons_cons, ih, List.map_cons, String.join_cons]
    simp only [String.append_assoc]

theorem join_framed (table : String) (declarations statements : List Piece) :
    String.join ((framed table declarations statements).map Piece.text) =
      creation table (declarations.map Piece.text) ++ "\n" ++
        String.join ((statements.map Piece.text).map ("\n" ++ ·)) := by
  unfold framed creation
  cases declarations with
  | nil =>
    simp only [List.map_nil, List.isEmpty_nil, if_true, List.nil_append, List.map_cons,
      String.join_cons, Piece.text_plain, join_led, String.append_assoc]
  | cons d rest =>
    simp only [List.map_cons, List.isEmpty_cons, Bool.false_eq_true, if_false, List.map_append,
      List.map_nil, String.join_cons, String.join_append, String.join_nil, Piece.text_plain, join_led,
      intercalate_cons, String.append_assoc, String.append_empty]

theorem filterMap_framed (table : String) (declarations statements : List Piece) :
    (framed table declarations statements).filterMap Piece.introduces =
      declarations.filterMap Piece.introduces ++ statements.filterMap Piece.introduces := by
  unfold framed
  cases declarations with
  | nil => simp [List.filterMap_cons, filterMap_led]
  | cons d rest => cases hd : d.introduces <;> simp [List.filterMap_cons, hd, filterMap_led]

theorem mem_framed {declarations statements : List Piece} {p : Piece}
    (h : p ∈ framed table declarations statements) (hp : p.introduces = some name) :
    p ∈ declarations ∨ p ∈ statements := by
  have hne (text : String) : p ≠ .plain text := by
    rintro rfl
    cases hp
  have hled {lead : String} {ps : List Piece} (hmem : p ∈ led lead ps) : p ∈ ps := by
    simpa [led, hne] using hmem
  unfold framed at h
  cases declarations with
  | nil =>
    simp [hne] at h
    exact .inr (hled h)
  | cons d rest =>
    simp [hne] at h
    rcases h with rfl | h | h
    · exact .inl (.head _)
    · exact .inl (.tail d (hled h))
    · exact .inr (hled h)

theorem exists_introductions {texts : List String}
    (h : List.Forall₂ (fun c s => introduction types table graph c = .ok ⟨some c.name, s⟩)
      columns texts) :
    ∃ ps, columns.mapM (introduction types table graph) = .ok ps ∧ ps.map Piece.text = texts
      ∧ ps.filterMap Piece.introduces = columns.map Column.name := by
  induction h with
  | nil => exact ⟨[], rfl, rfl, rfl⟩
  | @cons c s cs texts hc _ ih =>
    obtain ⟨ps, hps, htexts, hnames⟩ := ih
    refine ⟨⟨some c.name, s⟩ :: ps, ?_, ?_, ?_⟩
    · rw [List.mapM_cons, hc, ok_bind, hps, ok_bind]
      rfl
    · rw [List.map_cons, htexts]
    · simp only [List.filterMap_cons, hnames, List.map_cons]

/-- A script has pieces. They give its text, they introduce the columns in the order in which these
are created and added, and what introduces a column is its introduction. -/
theorem pieces_spec (h : ofGraph columns graph types table = .ok script) :
    ∃ ps, pieces columns graph types table = .ok ps ∧ String.join (ps.map Piece.text) = script.text
      ∧ ps.filterMap Piece.introduces =
          (created columns graph ++ added columns graph).map Column.name
      ∧ ∀ p ∈ ps, ∀ name, p.introduces = some name →
          ∃ c ∈ columns, c.name = name ∧ introduction types table graph c = .ok p := by
  obtain ⟨declarations, statements, hdeclarations, hstatements, hcreate, hadditions⟩ := ofGraph_eq_ok h
  have hcreated : List.Forall₂ (fun c s => introduction types table graph c = .ok ⟨some c.name, s⟩)
      (created columns graph) declarations := by
    rw [List.forall₂_iff_zip] at hdeclarations ⊢
    refine ⟨hdeclarations.1, fun {c s} hmem => ?_⟩
    have hzero : graph.outgoing c.name = 0 := by
      simpa using (List.mem_filter.mp (List.of_mem_zip hmem).1).2
    rw [introduction, if_pos hzero, hdeclarations.2 hmem]
    rfl
  have hadded : List.Forall₂ (fun c s => introduction types table graph c = .ok ⟨some c.name, s⟩)
      (added columns graph) statements := by
    rw [List.forall₂_iff_zip] at hstatements ⊢
    refine ⟨hstatements.1, fun {c s} hmem => ?_⟩
    rw [introduction, if_neg (mem_added.mp (List.of_mem_zip hmem).1).2, hstatements.2 hmem]
    rfl
  obtain ⟨ds, hds, hdtexts, hdnames⟩ := exists_introductions hcreated
  obtain ⟨ss, hss, hstexts, hsnames⟩ := exists_introductions hadded
  refine ⟨framed table ds ss, ?_, ?_, ?_, ?_⟩
  · rw [pieces, hds, ok_bind, hss, ok_bind]
    rfl
  · rw [join_framed, hdtexts, hstexts, text_eq, hcreate, hadditions]
  · rw [filterMap_framed, hdnames, hsnames, List.map_append]
  · intro p hp name hname
    have hmem : ∃ c ∈ created columns graph ++ added columns graph,
        introduction types table graph c = .ok p := by
      simp only [List.mem_append, or_and_right, exists_or]
      rw [← mem_of_mapM_eq_ok hds, ← mem_of_mapM_eq_ok hss]
      exact mem_framed hp hname
    obtain ⟨c, hc, hintro⟩ := hmem
    refine ⟨c, (created_append_added_perm columns graph).mem_iff.mp hc, ?_, hintro⟩
    rw [introduces_introduction hintro] at hname
    exact Option.some.inj hname

end Script

end SheetIntake
