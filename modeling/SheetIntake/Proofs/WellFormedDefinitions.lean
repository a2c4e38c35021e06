import SheetIntake.Proofs.Acyclicity
import SheetIntake.Proofs.References

/-!
# Families of well formed definitions

A definition is well formed when each node of its tree is of a known kind and has the fields of that
kind. The columns that such a definition refers to can always be collected, so the only thing that
can go wrong with the graph of a family is a reference to a column that the family does not have.

* **`Definition.WellFormed.exists_names`** — the names that are collected: those that the definition
  mentions, each once unless the definition is a range.
-/

namespace SheetIntake

open Outcome

namespace Definition

/-- Every node is of a known kind and has its fields: a cell names a column, a range names columns, a
function has arguments and an operator has two sides. -/
inductive WellFormed : Definition → Prop where
  | cell (name : String) : WellFormed (.cell (.ok (.str name)))
  | range (names : List String) : WellFormed (.range (.ok (.list (names.map .str))))
  | constant : WellFormed .constant
  | call {arguments : List Definition} (harguments : ∀ d ∈ arguments, WellFormed d) :
      WellFormed (.call arguments)
  | binary {left right : Definition} (hleft : WellFormed left) (hright : WellFormed right) :
      WellFormed (.binary left right)

/-! ## The names that are collected

Only names come up in a well formed definition, so dropping repetitions is what it is for texts. -/

theorem withoutRepeats_names (names : List String) :
    ∃ kept : List String, withoutRepeats (names.map .str) = kept.map .str ∧ kept.Nodup := by
  -- along the list, what was seen are names without repetitions
  have hfold (rest seen : List String) (hseen : seen.Nodup) :
      ∃ kept : List String, (rest.map Value.str).foldl
          (fun seen w => if seen.any (·.alike w) then seen else seen ++ [w])
          (seen.map .str) = kept.map .str ∧ kept.Nodup := by
    induction rest generalizing seen with
    | nil => exact ⟨seen, rfl, hseen⟩
    | cons name rest ih =>
      have hany : (seen.map Value.str).any (fun x => x.alike (.str name)) = decide (name ∈ seen) := by
        rw [Bool.eq_iff_iff]
        simp [Value.alike_str]
      rw [List.map_cons, List.foldl_cons, hany]
      by_cases hmem : name ∈ seen
      · simpa [hmem] using ih seen hseen
      · have hnext : (seen ++ [name]).Nodup := by
          rw [List.nodup_append]
          simp [hseen]
          exact fun a ha heq => hmem (heq ▸ ha)
        simpa [hmem] using ih (seen ++ [name]) hnext
  exact hfold names [] List.nodup_nil

theorem distinct_names (names : List String) :
    ∃ kept : List String, distinct (names.map .str) = .ok (kept.map .str) ∧ kept.Nodup := by
  obtain ⟨kept, hkept, hnodup⟩ := withoutRepeats_names names
  have hkeys : (names.map Value.str).all Value.isKey := by
    simp [Value.isKey]
  exact ⟨kept, by rw [distinct, if_pos hkeys, hkept], hnodup⟩

theorem exists_columnsOfAll {ds : List Definition}
    (h : ∀ d ∈ ds, ∃ names : List String, d.columns = .ok (.list (names.map .str))) :
    ∃ names : List String, columnsOfAll ds = .ok (names.map .str) := by
  induction ds with
  | nil => exact ⟨[], rfl⟩
  | cons d ds ih =>
    obtain ⟨names, hnames⟩ := h d (.head _)
    obtain ⟨others, hothers⟩ := ih (fun e he => h e (.tail d he))
    refine ⟨names ++ others, ?_⟩
    rw [columnsOfAll, hnames, ok_bind, Value.elements, ok_bind, hothers, ok_bind, List.map_append]
    rfl

theorem WellFormed.exists_columns {d : Definition} (h : d.WellFormed) :
    ∃ names : List String, d.columns = .ok (.list (names.map .str))
      ∧ (DefinitionKind.of? d ≠ some .range → names.Nodup) := by
  induction h with
  | cell name => exact ⟨[name], rfl, fun _ => List.nodup_singleton name⟩
  | range names => exact ⟨names, rfl, fun hrange => absurd rfl hrange⟩
  | constant => exact ⟨[], rfl, fun _ => List.nodup_nil⟩
  | call _ ih =>
    obtain ⟨names, hnames⟩ := exists_columnsOfAll (fun d hd => (ih d hd).imp fun _ h => h.1)
    obtain ⟨kept, hkept, hnodup⟩ := distinct_names names
    refine ⟨kept, ?_, fun _ => hnodup⟩
    rw [columns, hnames, ok_bind, hkept, ok_bind]
    rfl
  | binary _ _ ihleft ihright =>
    obtain ⟨ls, hls, -⟩ := ihleft
    obtain ⟨rs, hrs, -⟩ := ihright
    -- repetitions are dropped on each side first, and then from both sides together
    obtain ⟨ls', hls', -⟩ := distinct_names ls
    obtain ⟨rs', hrs', -⟩ := distinct_names rs
    obtain ⟨kept, hkept, hnodup⟩ := withoutRepeats_names (ls' ++ rs')
    refine ⟨kept, ?_, fun _ => hnodup⟩
    rw [columns, hls, ok_bind, hrs, ok_bind, Value.elements, ok_bind, hls', ok_bind, Value.elements,
      ok_bind, hrs', ok_bind, ← List.map_append, hkept]
    rfl

theorem WellFormed.exists_names {d : Definition} (h : d.WellFormed) :
    ∃ names : List String, d.columns = .ok (.list (names.map .str))
      ∧ (∀ b, b ∈ names ↔ d.Mentions b) ∧ (DefinitionKind.of? d ≠ some .range → names.Nodup) := by
  obtain ⟨names, hcolumns, hnodup⟩ := h.exists_columns
  refine ⟨names, hcolumns, fun b => ?_, hnodup⟩
  rw [← mem_columns hcolumns rfl]
  simp

end Definition

def DependsOn (columns : List Column) (a b : String) : Prop :=
  ∃ c ∈ columns, c.name = a ∧ c.definition.Mentions b

namespace DependencyGraph

/-! ## The graph of a family -/

variable {columns : List Column} {g : DependencyGraph}

theorem names_of_ofColumns (h : ofColumns columns = .ok g) : g.names = columns.map Column.name := by
  obtain ⟨edges, -, rfl⟩ := ofColumns_eq_ok.mp h
  rfl

theorem exists_columns_of_ofColumns (h : ofColumns columns = .ok g) {c : Column}
    (hc : c ∈ columns) : ∃ v, c.definition.columns = .ok v := by
  obtain ⟨edges, hedges, -⟩ := ofColumns_eq_ok.mp h
  obtain ⟨es, -, hes⟩ := exists_of_mapM_eq_ok hedges hc
  obtain ⟨v, hv, -⟩ := edgesOf_cases hes
  exact ⟨v, hv⟩

variable {edges : List (String × String)}

theorem mapM_edge_eq_ok {names targets : List String} {source : String} :
    (targets.map Value.str).mapM (edge names source) = .ok edges ↔
      (∀ b ∈ targets, b ∈ names) ∧ edges = targets.map (fun b => (source, b)) := by
  rw [List.mapM_map, mapM_eq_ok]
  induction targets generalizing edges with
  | nil => simp
  | cons b targets ih =>
    have hhead (e : String × String) :
        edge names source (.str b) = .ok e ↔ b ∈ names ∧ e = (source, b) := by
      simp [edge_eq_ok]
    rw [List.forall₂_cons_left_iff, List.forall_mem_cons, List.map_cons]
    constructor
    · rintro ⟨e, es, he, hes, rfl⟩
      obtain ⟨hb, rfl⟩ := (hhead e).mp he
      obtain ⟨hmem, rfl⟩ := ih.mp hes
      exact ⟨⟨hb, hmem⟩, rfl⟩
    · rintro ⟨⟨hb, hmem⟩, rfl⟩
      exact ⟨_, _, (hhead _).mpr ⟨hb, rfl⟩, ih.mpr ⟨hmem, rfl⟩, rfl⟩

theorem edgesOf_eq_ok {names targets : List String} {column : Column}
    (htargets : column.definition.columns = .ok (.list (targets.map .str)))
    : edgesOf names column = .ok edges ↔
      (∀ b ∈ targets, b ∈ names) ∧ edges = targets.map (fun b => (column.name, b)) := by
  rw [edgesOf, htargets, ok_bind]
  split
  · -- a constant has no names
    next hconstant =>
    have hnil : targets = [] := by
      cases hd : column.definition with
      | constant =>
        rw [hd] at htargets
        simpa [Definition.columns] using htargets
      | _ => rw [hd] at hconstant; cases hconstant
    subst hnil
    rw [pure_eq_ok]
    simp [eq_comm]
  · exact mapM_edge_eq_ok

theorem mem_names_of_mem_edges (h : ofColumns columns = .ok g) {a b : String}
    (hedge : (a, b) ∈ g.edges) : a ∈ g.names ∧ b ∈ g.names := by
  obtain ⟨edges, hedges, rfl⟩ := ofColumns_eq_ok.mp h
  obtain ⟨es, hes, hmem⟩ := List.mem_flatten.mp hedge
  obtain ⟨c, hc, hce⟩ := (mem_of_mapM_eq_ok hedges).mp hes
  have hsource := ((mem_edgesOf hce).mp hmem).1
  refine ⟨hsource ▸ List.mem_map_of_mem hc, ?_⟩
  -- the edge was made from a target, and only columns of the family are possible targets
  obtain ⟨v, -, ⟨-, rfl⟩ | ⟨items, -, hce⟩⟩ := edgesOf_cases hce
  · cases hmem
  · obtain ⟨target, -, htarget⟩ := (mem_of_mapM_eq_ok hce).mp hmem
    obtain ⟨name, hname, -, hpair⟩ := edge_eq_ok.mp htarget
    rwa [(Prod.mk.inj hpair).2]

theorem exists_ofColumns_iff (hwf : ∀ c ∈ columns, c.definition.WellFormed) :
    (∃ g, ofColumns columns = .ok g) ↔
      ∀ c ∈ columns, ∀ b, c.definition.Mentions b → b ∈ columns.map Column.name := by
  constructor
  · rintro ⟨g, hg⟩ c hc b hmention
    have hedge : (c.name, b) ∈ g.edges := (mem_edges hg).mpr ⟨c, hc, rfl, hmention⟩
    rw [← names_of_ofColumns hg]
    exact (mem_names_of_mem_edges hg hedge).2
  · intro hmentions
    have hedges : ∀ c ∈ columns, ∃ edges, edgesOf (columns.map Column.name) c = .ok edges := by
      intro c hc
      obtain ⟨names, hcolumns, hnames, -⟩ := (hwf c hc).exists_names
      exact ⟨_, (edgesOf_eq_ok hcolumns).mpr
        ⟨fun b hb => hmentions c hc b ((hnames b).mp hb), rfl⟩⟩
    obtain ⟨edges, hedges⟩ := exists_mapM_eq_ok hedges
    exact ⟨_, ofColumns_eq_ok.mpr ⟨edges, hedges, rfl⟩⟩

variable {c : Column}

theorem countP_flatten_edges {names : List String} {edges : List (List (String × String))}
    (hnodup : (columns.map Column.name).Nodup)
    (hedges : List.Forall₂ (fun c es => edgesOf names c = .ok es) columns edges) (hc : c ∈ columns)
    {es : List (String × String)} (hes : edgesOf names c = .ok es) :
    edges.flatten.countP (·.1 = c.name) = es.length := by
  induction hedges with
  | nil => cases hc
  | @cons first own rest others hown hothers ih =>
    obtain ⟨hfirst, hnodup⟩ := List.nodup_cons.mp hnodup
    rw [List.flatten_cons, List.countP_append]
    rcases List.mem_cons.mp hc with rfl | hc
    · -- all its own edges start at the column, and those of the others do not
      obtain rfl := Except.ok.inj (hown.symm.trans hes)
      have hhere : own.countP (·.1 = c.name) = own.length := by
        rw [List.countP_eq_length]
        rintro ⟨a, b⟩ he
        simpa using ((mem_edgesOf hown).mp he).1
      have hthere : others.flatten.countP (·.1 = c.name) = 0 := by
        rw [List.countP_eq_zero]
        rintro ⟨a, b⟩ he
        obtain ⟨es, hes, he⟩ := List.mem_flatten.mp he
        obtain ⟨d, hd, hde⟩ := (mem_of_mapM_eq_ok (mapM_eq_ok.mpr hothers)).mp hes
        have ha := ((mem_edgesOf hde).mp he).1
        simp only [decide_eq_true_eq]
        rintro rfl
        exact hfirst (ha ▸ List.mem_map_of_mem hd)
      omega
    · have hother : own.countP (·.1 = c.name) = 0 := by
        rw [List.countP_eq_zero]
        rintro ⟨a, b⟩ he
        have ha := ((mem_edgesOf hown).mp he).1
        simp only [decide_eq_true_eq]
        rintro rfl
        exact hfirst (ha ▸ List.mem_map_of_mem hc)
      have hrest := ih hnodup hc
      omega

theorem outgoing_eq_length (hnodup : (columns.map Column.name).Nodup)
    (hg : ofColumns columns = .ok g) (hc : c ∈ columns) {targets : List String}
    (htargets : c.definition.columns = .ok (.list (targets.map .str))) :
    g.outgoing c.name = targets.length := by
  obtain ⟨edges, hedges, rfl⟩ := ofColumns_eq_ok.mp hg
  obtain ⟨es, -, hes⟩ := exists_of_mapM_eq_ok hedges hc
  have hlength : es.length = targets.length := by
    rw [((edgesOf_eq_ok htargets).mp hes).2, List.length_map]
  rw [outgoing, countP_flatten_edges hnodup (mapM_eq_ok.mp hedges) hc hes, hlength]

theorem outgoing_ne_zero_iff (hnodup : (columns.map Column.name).Nodup)
    (hg : ofColumns columns = .ok g) (hc : c ∈ columns) :
    g.outgoing c.name ≠ 0 ↔ ∃ b, c.definition.Mentions b := by
  rw [← Nat.pos_iff_ne_zero, outgoing_pos hg]
  constructor
  · rintro ⟨d, hd, hname, hmention⟩
    rwa [← List.inj_on_of_nodup_map hnodup hd hc hname]
  · exact fun hmention => ⟨c, hc, rfl, hmention⟩

theorem isAcyclic_iff_no_dependence (hg : ofColumns columns = .ok g) :
    g.isAcyclic ↔ ∀ a, ¬ Relation.TransGen (DependsOn columns) a a := by
  have hedge : (fun a b => (a, b) ∈ g.edges) = DependsOn columns := by
    funext a b
    exact propext (mem_edges hg)
  rw [isAcyclic_iff (fun a b he => (mem_names_of_mem_edges hg he).1), hedge]

end DependencyGraph

end SheetIntake
