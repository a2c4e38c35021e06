import SheetIntake.Ddl.Graph
import SheetIntake.Proofs.Outcome

/-!
# References of definitions

`Definition.Mentions` says what it is for a definition to refer to a column, without computing
anything: a cell or a range somewhere in its tree names the column. The graph of a family has an
edge for each such mention and no other edge.

* `DependencyGraph.mem_edges` — the edges of the graph are those mentions.
-/

namespace SheetIntake

open Outcome
open Value (str)

namespace Definition

/-- A definition mentions a column when a cell or a range of its tree names it. -/
inductive Mentions (name : String) : Definition → Prop where
  | cell : Mentions name (.cell (.ok (.str name)))
  | range {columns : Value} {items : List Value} (helements : columns.elements = .ok items)
      (hmem : Value.str name ∈ items) : Mentions name (.range (.ok columns))
  | call {arguments : List Definition} {d : Definition} (hmem : d ∈ arguments)
      (hd : Mentions name d) : Mentions name (.call arguments)
  | left {left right : Definition} (hleft : Mentions name left) : Mentions name (.binary left right)
  | right {left right : Definition} (hright : Mentions name right) :
      Mentions name (.binary left right)

variable {name : String}

@[simp]
theorem mentions_cell {v : Value} : Mentions name (.cell (.ok v)) ↔ v = .str name := by
  constructor
  · rintro ⟨⟩
    rfl
  · rintro rfl
    exact .cell

@[simp]
theorem not_mentions_constant : ¬ Mentions name .constant := nofun

@[simp]
theorem mentions_call {arguments : List Definition} :
    Mentions name (.call arguments) ↔ ∃ d ∈ arguments, d.Mentions name := by
  constructor
  · rintro ⟨⟩
    next d hmention hd => exact ⟨d, hd, hmention⟩
  · rintro ⟨d, hd, hmention⟩
    exact .call hd hmention

@[simp]
theorem mentions_binary {left right : Definition} :
    Mentions name (.binary left right) ↔ left.Mentions name ∨ right.Mentions name := by
  constructor
  · rintro ⟨⟩
    · next hmention => exact .inl hmention
    · next hmention => exact .inr hmention
  · rintro (hmention | hmention)
    · exact .left hmention
    · exact .right hmention

/-! ## Dropping repetitions keeps the names -/

variable {vs : List Value}

theorem mem_of_mem_withoutRepeats {v : Value} (h : v ∈ withoutRepeats vs) : v ∈ vs := by
  -- what was seen comes from the part that was gone through
  have hfold (rest seen : List Value) :
      v ∈ rest.foldl
          (fun seen w => if seen.any (·.alike w) then seen else seen ++ [w]) seen →
        v ∈ seen ∨ v ∈ rest := by
    induction rest generalizing seen with
    | nil => exact .inl
    | cons w rest ih =>
      intro hv
      rw [List.foldl_cons] at hv
      have hseen := ih _ hv
      split at hseen
      · exact hseen.imp_right (.tail w)
      · rw [List.mem_append, List.mem_singleton] at hseen
        rw [List.mem_cons]
        tauto
  exact (hfold vs [] h).resolve_left List.not_mem_nil

theorem mem_withoutRepeats : str name ∈ withoutRepeats vs ↔ str name ∈ vs := by
  -- a name that was seen, or is still to come, is there in the end
  have hfold (rest seen : List Value) :
      str name ∈ seen ∨ str name ∈ rest →
        str name ∈ rest.foldl
          (fun seen w => if seen.any (·.alike w) then seen else seen ++ [w]) seen := by
    induction rest generalizing seen with
    | nil => exact fun h => h.resolve_right List.not_mem_nil
    | cons w rest ih =>
      intro hname
      rw [List.foldl_cons]
      apply ih
      rw [List.mem_cons] at hname
      split
      · next hany =>
        -- a name that is left out is there already
        have hseen (h : str name = w) : str name ∈ seen := by
          subst h
          obtain ⟨x, hx, hxw⟩ := List.any_eq_true.mp hany
          rwa [← Value.alike_str.mp hxw]
        tauto
      · rw [List.mem_append, List.mem_singleton]
        tauto
  exact ⟨mem_of_mem_withoutRepeats, fun h => hfold vs [] (.inr h)⟩

theorem mem_distinct {ws : List Value} (h : distinct vs = .ok ws) :
    str name ∈ ws ↔ str name ∈ vs := by
  unfold distinct at h
  split at h
  · rw [← Except.ok.inj h]
    exact mem_withoutRepeats
  · cases h

theorem exists_distinct (h : ∀ v ∈ vs, v.isKey) :
    ∃ ws, distinct vs = .ok ws ∧ ∀ w ∈ ws, w ∈ vs := by
  refine ⟨withoutRepeats vs, ?_, fun w hw => mem_of_mem_withoutRepeats hw⟩
  rw [distinct, if_pos (List.all_eq_true.mpr h)]

/-! ## The collected names -/

mutual

theorem mem_columns {name : String} : ∀ {d : Definition} {v : Value} {items : List Value},
    columns d = .ok v → v.elements = .ok items → (str name ∈ items ↔ d.Mentions name)
  | .cell column, v, items, h, hitems => by
    rw [columns] at h
    obtain ⟨w, rfl, h⟩ := bind_eq_ok.mp h
    cases h
    cases hitems
    rw [List.mem_singleton, mentions_cell, eq_comm]
  | .range columns, v, items, h, hitems => by
    rw [Definition.columns] at h
    subst h
    constructor
    · exact fun hmem => .range hitems hmem
    · rintro ⟨⟩
      next items' hmem helements =>
      rw [hitems] at helements
      rwa [Except.ok.inj helements]
  | .constant, v, items, h, hitems => by
    rw [columns] at h
    cases h
    cases hitems
    simp
  | .call arguments, v, items, h, hitems => by
    rw [columns] at h
    obtain ⟨names, hnames, h⟩ := bind_eq_ok.mp h
    obtain ⟨ws, hws, h⟩ := bind_eq_ok.mp h
    cases h
    cases hitems
    rw [mem_distinct hws, mem_columnsOfAll hnames, mentions_call]
  | .binary left right, v, items, h, hitems => by
    rw [columns] at h
    obtain ⟨l, hl, h⟩ := bind_eq_ok.mp h
    obtain ⟨r, hr, h⟩ := bind_eq_ok.mp h
    obtain ⟨ls, hls, h⟩ := bind_eq_ok.mp h
    obtain ⟨ls', hls', h⟩ := bind_eq_ok.mp h
    obtain ⟨rs, hrs, h⟩ := bind_eq_ok.mp h
    obtain ⟨rs', hrs', h⟩ := bind_eq_ok.mp h
    cases h
    cases hitems
    rw [mem_withoutRepeats, List.mem_append, mem_distinct hls', mem_distinct hrs',
      mem_columns hl hls, mem_columns hr hrs, mentions_binary]
  | .unknown kind, v, items, h, _ | .unreadable fault, v, items, h, _ => by
    rw [columns] at h
    cases h

theorem mem_columnsOfAll {name : String} : ∀ {ds : List Definition} {names : List Value},
    columnsOfAll ds = .ok names → (str name ∈ names ↔ ∃ d ∈ ds, d.Mentions name)
  | [], names, h => by
    rw [columnsOfAll] at h
    cases h
    simp
  | d :: ds, names, h => by
    rw [columnsOfAll] at h
    obtain ⟨v, hv, h⟩ := bind_eq_ok.mp h
    obtain ⟨items, hitems, h⟩ := bind_eq_ok.mp h
    obtain ⟨others, hothers, h⟩ := bind_eq_ok.mp h
    cases h
    rw [List.mem_append, mem_columns hv hitems, mem_columnsOfAll hothers, List.exists_mem_cons_iff]

end

theorem exists_columns_of_columnsOfAll {ds : List Definition} {names : List Value}
    (h : columnsOfAll ds = .ok names) {d : Definition} (hd : d ∈ ds) : ∃ v, d.columns = .ok v := by
  induction ds generalizing names with
  | nil => cases hd
  | cons first ds ih =>
    obtain ⟨v, hv, h⟩ := bind_eq_ok.mp h
    obtain ⟨items, -, h⟩ := bind_eq_ok.mp h
    obtain ⟨others, hothers, -⟩ := bind_eq_ok.mp h
    rcases List.mem_cons.mp hd with rfl | hd
    · exact ⟨v, hv⟩
    · exact ih hothers hd

end Definition

namespace DependencyGraph

/-! ## The edges of a graph -/

variable {names : List String}

theorem edge_eq_ok {source : String} {target : Value} {e : String × String} :
    edge names source target = .ok e ↔ ∃ name ∈ names, target = .str name ∧ e = (source, name) := by
  unfold edge
  split
  · next name =>
    split
    · next hmem => simp [hmem, eq_comm]
    · next hmem => simp [hmem]
  · next hother =>
    simp only [reduceCtorEq, false_iff]
    rintro ⟨name, -, rfl, -⟩
    exact hother name rfl

/-- The edges that start at a column are made from the names of its definition; a constant has none. -/
theorem edgesOf_cases {column : Column} {edges : List (String × String)}
    (h : edgesOf names column = .ok edges) : ∃ v, column.definition.columns = .ok v
      ∧ (column.definition.isConstant ∧ edges = []
        ∨ ∃ items, v.elements = .ok items ∧ items.mapM (edge names column.name) = .ok edges) := by
  obtain ⟨v, hv, h⟩ := bind_eq_ok.mp h
  refine ⟨v, hv, ?_⟩
  split at h
  · next hconstant => exact .inl ⟨hconstant, (Except.ok.inj h).symm⟩
  · exact .inr (bind_eq_ok.mp h)

variable {a : String}

theorem mem_edgesOf {column : Column} {edges : List (String × String)}
    (h : edgesOf names column = .ok edges) {b : String} :
    (a, b) ∈ edges ↔ a = column.name ∧ column.definition.Mentions b := by
  obtain ⟨v, hv, ⟨hconstant, rfl⟩ | ⟨items, hitems, h⟩⟩ := edgesOf_cases h
  · -- a constant has no edges and mentions nothing
    cases hd : column.definition with
    | constant => simp
    | _ => rw [hd] at hconstant; cases hconstant
  · rw [mem_of_mapM_eq_ok h, ← Definition.mem_columns hv hitems]
    constructor
    · rintro ⟨target, htarget, he⟩
      obtain ⟨name, -, rfl, hpair⟩ := edge_eq_ok.mp he
      cases hpair
      exact ⟨rfl, htarget⟩
    · rintro ⟨rfl, hmem⟩
      -- every item has an edge, and this one is named by its own edge
      obtain ⟨e, -, he⟩ := exists_of_mapM_eq_ok h hmem
      obtain ⟨name, hname, heq, rfl⟩ := edge_eq_ok.mp he
      obtain rfl := str.inj heq
      exact ⟨.str b, hmem, edge_eq_ok.mpr ⟨b, hname, rfl, rfl⟩⟩

variable {columns : List Column} {g : DependencyGraph}

theorem ofColumns_eq_ok : ofColumns columns = .ok g ↔
      ∃ edges, columns.mapM (edgesOf (columns.map Column.name)) = .ok edges
        ∧ { names := columns.map Column.name, edges := edges.flatten } = g := by
  simp only [ofColumns, bind_eq_ok, pure_eq_ok]

theorem mem_edges (h : ofColumns columns = .ok g) {b : String} :
    (a, b) ∈ g.edges ↔ ∃ c ∈ columns, c.name = a ∧ c.definition.Mentions b := by
  obtain ⟨edges, hedges, rfl⟩ := ofColumns_eq_ok.mp h
  rw [List.mem_flatten]
  constructor
  · rintro ⟨es, hes, hmem⟩
    obtain ⟨c, hc, hce⟩ := (mem_of_mapM_eq_ok hedges).mp hes
    obtain ⟨rfl, hmention⟩ := (mem_edgesOf hce).mp hmem
    exact ⟨c, hc, rfl, hmention⟩
  · rintro ⟨c, hc, rfl, hmention⟩
    obtain ⟨es, hes, hce⟩ := exists_of_mapM_eq_ok hedges hc
    exact ⟨es, hes, (mem_edgesOf hce).mpr ⟨rfl, hmention⟩⟩

theorem outgoing_pos (h : ofColumns columns = .ok g) :
    0 < g.outgoing a ↔ ∃ c ∈ columns, c.name = a ∧ ∃ b, c.definition.Mentions b := by
  unfold outgoing
  rw [List.countP_pos_iff]
  constructor
  · rintro ⟨⟨a', b⟩, hmem, ha⟩
    obtain ⟨c, hc, hname, hmention⟩ := (mem_edges h).mp hmem
    exact ⟨c, hc, hname.trans (of_decide_eq_true ha), b, hmention⟩
  · rintro ⟨c, hc, rfl, b, hmention⟩
    exact ⟨(c.name, b), (mem_edges h).mpr ⟨c, hc, rfl, hmention⟩, by simp⟩

end DependencyGraph

end SheetIntake
