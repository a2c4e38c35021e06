import Mathlib.Data.Set.Finite.Basic
import Mathlib.Order.WellFounded
import SheetIntake.Ddl.Graph

/-!
# Graphs without cycles

Peeling drops, round by round, the columns that refer to none of those left. Without a cycle there
is such a column in every round, so as many rounds as there are columns leave nothing. A column on a
cycle refers to the next one on it, so none of them is ever dropped.

* `DependencyGraph.isAcyclic_of_no_cycle` — a graph in which no chain of edges comes back to where
  it starts passes the test.
-/

namespace SheetIntake

variable {r : String → String → Prop}

/-- Of finitely many names on no cycle, one has no step to any of them. -/
theorem exists_sink (hacyclic : ∀ a, ¬ Relation.TransGen r a a)
    {names : List String} (hne : names ≠ []) : ∃ a ∈ names, ∀ b ∈ names, ¬ r a b := by
  -- going along a chain is a well-founded order on the names, and a least name has no step
  let after (x y : {name // name ∈ names}) : Prop := Relation.TransGen r y.1 x.1
  have : Std.Irrefl after := ⟨fun x => hacyclic x.1⟩
  have hwf : WellFounded after := Finite.wellFounded_of_trans_of_irrefl after
  obtain ⟨first, hfirst⟩ := List.exists_mem_of_ne_nil names hne
  obtain ⟨sink, -, hsink⟩ := hwf.has_min Set.univ ⟨⟨first, hfirst⟩, trivial⟩
  refine ⟨sink.1, sink.2, fun b hb hstep => ?_⟩
  exact hsink ⟨b, hb⟩ trivial (.single hstep)

theorem no_cycle_of_rank (rank : String → Nat)
    (hstep : ∀ a b, r a b → rank b < rank a) (a : String) : ¬ Relation.TransGen r a a := by
  intro h
  have hchain : Relation.TransGen (· > ·) (rank a) (rank a) := h.lift rank hstep
  rw [Relation.transGen_eq_self] at hchain
  exact lt_irrefl _ hchain

namespace DependencyGraph

variable {g : DependencyGraph} {names : List String}

theorem mem_referring {a : String} :
    a ∈ g.referring names ↔ a ∈ names ∧ ∃ b ∈ names, (a, b) ∈ g.edges := by
  simp only [referring, List.mem_filter, List.any_eq_true, decide_eq_true_eq]
  grind

theorem length_referring_lt (hsink : ∃ a ∈ names, ∀ b ∈ names, (a, b) ∉ g.edges) :
    (g.referring names).length < names.length := by
  obtain ⟨a, ha, hnone⟩ := hsink
  have hdropped : a ∉ g.referring names := by
    rw [mem_referring]
    rintro ⟨-, b, hb, he⟩
    exact hnone b hb he
  have hsub : (g.referring names).Sublist names := List.filter_sublist
  refine lt_of_le_of_ne hsub.length_le (fun hlength => hdropped ?_)
  rwa [hsub.eq_of_length hlength]

theorem peel_eq_nil
    (hacyclic : ∀ a, ¬ Relation.TransGen (fun a b => (a, b) ∈ g.edges) a a) (rounds : Nat)
    (names : List String) (hrounds : names.length ≤ rounds) : g.peel rounds names = [] := by
  induction rounds generalizing names with
  | zero => exact List.length_eq_zero_iff.mp (Nat.le_zero.mp hrounds)
  | succ rounds ih =>
    apply ih
    by_cases hne : names = []
    · subst hne
      exact Nat.zero_le rounds
    · have hlt := length_referring_lt (exists_sink hacyclic hne)
      omega

theorem isAcyclic_of_no_cycle
    (hacyclic : ∀ a, ¬ Relation.TransGen (fun a b => (a, b) ∈ g.edges) a a) : g.isAcyclic := by
  rw [isAcyclic, peel_eq_nil hacyclic _ _ le_rfl]
  rfl

theorem mem_peel_of_cycle (rounds : Nat)
    (hnames : ∀ a, Relation.TransGen (fun a b => (a, b) ∈ g.edges) a a → a ∈ names) {a : String}
    (ha : Relation.TransGen (fun a b => (a, b) ∈ g.edges) a a) : a ∈ g.peel rounds names := by
  induction rounds generalizing names with
  | zero => exact hnames a ha
  | succ rounds ih =>
    apply ih
    intro b hb
    -- the next column on the cycle is on it too, and so it is left as well
    obtain ⟨next, hedge, hback⟩ := Relation.TransGen.head'_iff.mp hb
    have hnext : Relation.TransGen (fun a b => (a, b) ∈ g.edges) next next := .tail' hback hedge
    exact mem_referring.mpr ⟨hnames b hb, next, hnames next hnext, hedge⟩

/-- The test is exact, provided that edges start at columns of the graph. -/
theorem isAcyclic_iff (hsource : ∀ a b, (a, b) ∈ g.edges → a ∈ g.names) :
    g.isAcyclic ↔ ∀ a, ¬ Relation.TransGen (fun a b => (a, b) ∈ g.edges) a a := by
  refine ⟨fun hacyclic a ha => ?_, isAcyclic_of_no_cycle⟩
  have hnames (b : String) (hb : Relation.TransGen (fun a b => (a, b) ∈ g.edges) b b) :
      b ∈ g.names := by
    obtain ⟨next, hedge, -⟩ := Relation.TransGen.head'_iff.mp hb
    exact hsource b next hedge
  have hleft := mem_peel_of_cycle g.names.length hnames ha
  rw [List.isEmpty_iff.mp hacyclic] at hleft
  cases hleft

end DependencyGraph

end SheetIntake
