import SheetIntake.Proofs.ColumnOrder
import SheetIntake.Proofs.JsonNumbers

/-!
# Rectangles of cells

The name of a cell tells its column by its letters and its row by its digits, and no letter is a
digit. So the cells of a rectangle are as many as its columns times its rows, and no two have one name.

* `Columns.rectangle_is_product` — the cells of a rectangle, their number and their order.
-/

namespace SheetIntake

theorem Text.isDigit_of_isUpper {c : Char} (h : c.isUpper) : isDigit c = false := by
  have hall : ∀ r ∈ digitRanges, r.2 < 65 ∨ 90 < r.1 := by decide
  have hbounds := isUpper_iff.mp h
  rw [isDigit, inRanges, List.any_eq_false]
  intro r hr
  have := hall r hr
  simp only [Bool.and_eq_true, decide_eq_true_eq, not_and]
  omega

theorem Text.isDigit_of_isDigit {c : Char} (h : c.isDigit) : isDigit c := by
  have hbounds : 48 ≤ c.toNat ∧ c.toNat ≤ 57 := Char.isDigit_iff_toNat.mp h
  rw [isDigit, inRanges, List.any_eq_true]
  exact ⟨(48, 57), by decide, by simp [hbounds]⟩

namespace Columns

variable {column first last : String} {r s : Nat}

theorem isDigit_of_mem_toString {n : Nat} {c : Char} (h : c ∈ (toString n).toList) : c.isDigit :=
  Json.isDigit_toDigits c (by rwa [show toString n = String.ofList (Nat.toDigits 10 n) from rfl,
    String.toList_ofList] at h)

theorem ofCell_append (h : IsCapital column) (n : Nat) : ofCell (column ++ toString n) = column := by
  rw [ofCell, String.toList_append, List.filter_append,
    List.filter_eq_self.mpr fun c hc => Text.isLetter_of_isUpper (h c hc),
    List.filter_eq_nil_iff.mpr fun c hc => ?_, List.append_nil, String.ofList_toList]
  rw [Text.isLetter_of_mark (.inl (isDigit_of_mem_toString hc))]
  exact Bool.false_ne_true

theorem rowOfCell_append (h : IsCapital column) (n : Nat) :
    rowOfCell (column ++ toString n) = .ok n := by
  rw [rowOfCell, String.toList_append, List.filter_append,
    List.filter_eq_self.mpr fun c hc => Text.isDigit_of_isDigit (isDigit_of_mem_toString hc),
    List.filter_eq_nil_iff.mpr fun c hc => by simp [Text.isDigit_of_isUpper (h c hc)],
    List.nil_append, String.ofList_toList, show toString n = toString (n : Int) from rfl,
    Json.readInt?_toString]

/-- Whether a cell stands before another: its column does, or its row in the same column. -/
def CellPrecedes (a b : String) : Prop :=
  Precedes (ofCell a) (ofCell b) ∨ ofCell a = ofCell b
    ∧ ∃ m n : Int, rowOfCell a = .ok m ∧ rowOfCell b = .ok n ∧ m < n

theorem not_cellPrecedes_self {cell : String} : ¬ CellPrecedes cell cell := by
  rintro (h | ⟨-, m, n, hm, hn, hlt⟩)
  · exact List.Shortlex.asymm.asymm _ _ h h
  · cases hm.symm.trans hn
    exact lt_irrefl _ hlt

/-! ## The cells between two corners -/

def cellsBetween (first last : String) (r s : Nat) : List String :=
  (span first last).flatMap fun column =>
    (List.range' r (s + 1 - r)).map fun row => column ++ toString row

theorem rectangle_eq (hfirst : IsCapital first) (hlast : IsCapital last) :
    rectangle (first ++ toString r) (last ++ toString s) = .ok (cellsBetween first last r s) := by
  have hrows : interval r s = (List.range' r (s + 1 - r)).map fun n : Nat => (n : Int) := by
    rw [interval, show ((s : Int) + 1 - r).toNat = s + 1 - r by omega, List.range'_eq_map_range,
      List.map_map]
    exact List.map_congr_left fun k _ => (Nat.cast_add r k).symm
  rw [rectangle, rows, rowOfCell_append hfirst, rowOfCell_append hlast, ofCell_append hfirst,
    ofCell_append hlast]
  refine congrArg Except.ok (List.flatMap_congr fun column _ => ?_)
  rw [hrows, List.map_map]
  rfl

theorem mem_cellsBetween {cell : String} : cell ∈ cellsBetween first last r s ↔
    ∃ column ∈ span first last, ∃ n, (r ≤ n ∧ n ≤ s) ∧ column ++ toString n = cell := by
  have hrow (n : Nat) : n ∈ List.range' r (s + 1 - r) ↔ r ≤ n ∧ n ≤ s := by
    rw [List.mem_range'_1]
    omega
  simp only [cellsBetween, List.mem_flatMap, List.mem_map, hrow]

theorem pairwise_cellsBetween (hfirst : IsCapital first) :
    (cellsBetween first last r s).Pairwise CellPrecedes := by
  refine List.pairwise_flatMap.mpr ⟨fun column hcolumn => ?_, ?_⟩
  · have hcapital := isCapital_of_mem_span hcolumn
    refine List.pairwise_map.mpr ((List.pairwise_lt_range' 1).imp fun {m n} hlt => .inr ?_)
    rw [ofCell_append hcapital, ofCell_append hcapital]
    exact ⟨rfl, m, n, rowOfCell_append hcapital m, rowOfCell_append hcapital n,
      Int.ofNat_lt.mpr hlt⟩
  · refine (pairwise_span hfirst last).imp_of_mem fun ha hb hprecedes x hx y hy => .inl ?_
    obtain ⟨m, -, rfl⟩ := List.mem_map.mp hx
    obtain ⟨n, -, rfl⟩ := List.mem_map.mp hy
    rwa [ofCell_append (isCapital_of_mem_span ha), ofCell_append (isCapital_of_mem_span hb)]

/-- The cells of the rectangle between two cells are as many as its columns times its rows. They stand
in order, column by column, and no cell twice; they are the cells whose column and whose row lie
between those of the corners, and these can be read off their names. -/
theorem rectangle_is_product (hfirst : IsCapital first) (hlast : IsCapital last) (r s : Nat) :
    ∃ cells, rectangle (first ++ toString r) (last ++ toString s) = .ok cells
      ∧ cells.length = (index last + 1 - index first).toNat * (s + 1 - r)
      ∧ cells.Nodup ∧ cells.Pairwise CellPrecedes
      ∧ (∀ column (n : Nat), IsCapital column → (column ++ toString n ∈ cells ↔
        ((first = column ∨ Precedes first column) ∧ (column = last ∨ Precedes column last))
          ∧ r ≤ n ∧ n ≤ s))
      ∧ ∀ cell ∈ cells, ∃ column, ∃ n : Nat, cell = column ++ toString n ∧ IsCapital column
        ∧ ofCell cell = column ∧ rowOfCell cell = .ok n := by
  have hordered : (cellsBetween first last r s).Pairwise CellPrecedes := pairwise_cellsBetween hfirst
  refine ⟨_, rectangle_eq hfirst hlast, ?_, hordered.imp fun hlt heq => ?_, hordered,
    fun column n hcolumn => ?_, fun cell hcell => ?_⟩
  · simp [cellsBetween, List.length_flatMap, List.map_const', span, interval, -List.map_map]
  · exact not_cellPrecedes_self (heq ▸ hlt)
  · rw [mem_cellsBetween, ← le_iff_precedes hfirst hcolumn, ← le_iff_precedes hcolumn hlast,
      ← mem_span hfirst hcolumn]
    refine ⟨?_, fun h => ⟨column, h.1, n, h.2, rfl⟩⟩
    rintro ⟨other, hother, m, hm, hname⟩
    -- the letters and the digits of a name tell its column and its row
    have hcapital := isCapital_of_mem_span hother
    have hsame := congrArg ofCell hname
    have hrow := congrArg rowOfCell hname
    rw [ofCell_append hcapital, ofCell_append hcolumn] at hsame
    rw [rowOfCell_append hcapital, rowOfCell_append hcolumn] at hrow
    cases hsame
    cases Int.ofNat.inj (Except.ok.inj hrow)
    exact ⟨hother, hm⟩
  · obtain ⟨column, hcolumn, n, -, rfl⟩ := mem_cellsBetween.mp hcell
    have hcapital := isCapital_of_mem_span hcolumn
    exact ⟨column, n, rfl, hcapital, ofCell_append hcapital n, rowOfCell_append hcapital n⟩

theorem rectangle_across_lengths : ∃ cells, rectangle "Y9" "AA10" = .ok cells
    ∧ cells.length = 6 ∧ cells.Nodup ∧ "Z10" ∈ cells := by
  obtain ⟨cells, hcells, hlength, hnodup, -, hmem, -⟩ :=
    @rectangle_is_product "Y" "AA" (by decide) (by decide) 9 10
  refine ⟨cells, hcells, hlength.trans rfl, hnodup, (hmem "Z" 10 (by decide)).mpr ⟨⟨.inr ?_, .inr ?_⟩,
    by decide, by decide⟩⟩
  · exact .of_lex rfl (.rel (by decide))
  · exact .of_length_lt (by decide)

end Columns

end SheetIntake
