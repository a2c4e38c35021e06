import Mathlib.Data.List.Basic
import Mathlib.Data.List.Induction
import Mathlib.Tactic.Ring
import SheetIntake.Formula.Columns

/-!
# The order of columns

`Columns.next` counts the columns of a sheet by their letters alone: the last letter goes up by one,
and after `Z` it starts again at `A` and the letters before it go up. The columns from one to another
are those that are met on the way, `Columns.Stretch`.

* `Columns.index_next` — the next column has the next count.
-/

namespace SheetIntake

/-! ## Basic capitals -/

theorem isUpper_iff {c : Char} : c.isUpper ↔ 65 ≤ c.toNat ∧ c.toNat ≤ 90 := by
  rw [show c.isUpper = decide (c.val ≥ 'A'.val ∧ c.val ≤ 'Z'.val) from rfl, decide_eq_true_eq]
  exact and_congr UInt32.le_iff_toNat_le UInt32.le_iff_toNat_le

theorem toNat_ofNat {n : Nat} (h : n ≤ 90) : (Char.ofNat n).toNat = n := by
  have hvalid : n.isValidChar := .inl (by omega)
  rw [Char.ofNat, dif_pos hvalid]
  rfl

namespace Text

variable {c : Char}

theorem upperChars_of_lt (h : c.toNat < 0x61) : upperChars c = [c] := by
  have hexpansions : upperExpansions.find? (·.1 = c.toNat) = none := by
    have hall : ∀ e ∈ upperExpansions, 0x61 ≤ e.1 := by decide +kernel
    rw [List.find?_eq_none]
    intro e he
    have := hall e he
    simp only [decide_eq_true_eq]
    omega
  have hruns : upperRuns.find? (fun r => r.first ≤ c.toNat && c.toNat ≤ r.last &&
      (c.toNat - r.first) % r.step == 0) = none := by
    have hall : ∀ r ∈ upperRuns, 0x61 ≤ r.first := by decide +kernel
    rw [List.find?_eq_none]
    intro r hr
    have := hall r hr
    simp only [Bool.and_eq_true, decide_eq_true_eq, not_and]
    omega
  simp [upperChars, hexpansions, hruns]

theorem upper_of_all_lt {s : String} (h : s.toList.all (·.toNat < 0x61)) : upper s = s := by
  have hlow : ∀ c ∈ s.toList, c.toNat < 0x61 := by simpa using h
  have hchars : s.toList.flatMap upperChars = s.toList := by
    rw [List.flatMap_congr (fun c hc => upperChars_of_lt (hlow c hc))]
    simp
  rw [upper, hchars, String.ofList_toList]

theorem isLetter_of_isUpper (h : c.isUpper) : isLetter c := by
  obtain ⟨hlow, hhigh⟩ := isUpper_iff.mp h
  rw [isLetter, inRanges, List.any_eq_true]
  exact ⟨(0x41, 0x5a), .head _, by simp [hlow, hhigh]⟩

theorem isLetter_of_lt (h : c.toNat < 0x41) : isLetter c = false := by
  have hall : ∀ r ∈ letterRanges, 0x41 ≤ r.1 := by decide +kernel
  rw [isLetter, inRanges, List.any_eq_false]
  intro r hr
  have := hall r hr
  simp only [Bool.and_eq_true, decide_eq_true_eq, not_and]
  omega

theorem isLetter_of_mark (h : c.isDigit ∨ c = '$') : isLetter c = false := by
  rcases h with hdigit | rfl
  · have hhigh : c.toNat ≤ 57 := (Char.isDigit_iff_toNat.mp hdigit).2
    exact isLetter_of_lt (by omega)
  · exact isLetter_of_lt (by decide)

end Text

namespace Columns

def IsCapital (name : String) : Prop :=
  ∀ c ∈ name.toList, c.isUpper = true

instance (name : String) : Decidable (IsCapital name) :=
  List.decidableBAll _ _

/-! ## Counts and letters -/

theorem indexOfChars_concat (cs : List Char) (c : Char) :
    indexOfChars (cs ++ [c]) = indexOfChars cs * 26 + place c := by
  simp [indexOfChars]

variable {cs : List Char}

theorem indexOfChars_nonneg (h : ∀ c ∈ cs, c.isUpper) : 0 ≤ indexOfChars cs := by
  induction cs using List.reverseRecOn with
  | nil => exact le_rfl
  | append_singleton cs c ih =>
    have hrest := ih (fun d hd => h d (List.mem_append_left _ hd))
    obtain ⟨hlow, -⟩ := isUpper_iff.mp (h c (by simp))
    rw [indexOfChars_concat, place]
    omega

theorem letterChars_indexOfChars (h : ∀ c ∈ cs, c.isUpper) :
    letterChars (indexOfChars cs).toNat = cs := by
  induction cs using List.reverseRecOn with
  | nil => rw [indexOfChars, List.foldl_nil, Int.toNat_zero, letterChars]
  | append_singleton cs c ih =>
    have hcs : ∀ d ∈ cs, d.isUpper := fun d hd => h d (List.mem_append_left _ hd)
    have hrest := ih hcs
    have hnonneg := indexOfChars_nonneg hcs
    obtain ⟨hlow, hhigh⟩ := isUpper_iff.mp (h c (by simp))
    -- the last letter is what the division by 26 leaves
    obtain ⟨n, hn⟩ := Int.eq_ofNat_of_zero_le hnonneg
    have hcount : (indexOfChars (cs ++ [c])).toNat = n * 26 + (c.toNat - 65) + 1 := by
      rw [indexOfChars_concat, place, hn]
      omega
    have hquotient : (n * 26 + (c.toNat - 65)) / 26 = n := by omega
    have hremainder : (n * 26 + (c.toNat - 65)) % 26 = c.toNat - 65 := by omega
    have hletter : letter (c.toNat - 65) = c := by
      rw [letter, show 65 + (c.toNat - 65) = c.toNat from by omega, Char.ofNat_toNat]
    rw [hn, Int.toNat_natCast] at hrest
    rw [hcount, letterChars, hquotient, hremainder, hletter, hrest]

variable {name : String}

theorem index_of_isCapital (h : IsCapital name) : index name = indexOfChars name.toList := by
  rw [index, Text.upper_of_all_lt]
  rw [List.all_eq_true]
  intro c hc
  have := isUpper_iff.mp (h c hc)
  exact decide_eq_true (by omega)

theorem letters_index (h : IsCapital name) : letters (index name) = name := by
  rw [letters, index_of_isCapital h, letterChars_indexOfChars h, String.ofList_toList]

/-! ## The next column -/

/-- The letters of the next column, the last letter first. -/
def nextReversed : List Char → List Char
  | [] => ['A']
  | c :: rest => if c = 'Z' then 'A' :: nextReversed rest else Char.ofNat (c.toNat + 1) :: rest

def next (name : String) : String :=
  String.ofList (nextReversed name.toList.reverse).reverse

theorem toNat_succ {c : Char} (h : c.isUpper) (hz : c ≠ 'Z') :
    c.toNat + 1 ≤ 90 ∧ (Char.ofNat (c.toNat + 1)).toNat = c.toNat + 1 := by
  obtain ⟨-, hhigh⟩ := isUpper_iff.mp h
  have hne : c.toNat ≠ 90 := by
    intro heq
    apply hz
    rw [← Char.ofNat_toNat c, heq]
  exact ⟨by omega, toNat_ofNat (by omega)⟩

theorem isUpper_nextReversed (h : ∀ c ∈ cs, c.isUpper) : ∀ c ∈ nextReversed cs, c.isUpper := by
  induction cs with
  | nil =>
    intro c hc
    rw [List.mem_singleton.mp hc]
    rfl
  | cons c cs ih =>
    obtain ⟨hc, hcs⟩ := List.forall_mem_cons.mp h
    rw [nextReversed]
    split
    · exact List.forall_mem_cons.mpr ⟨by decide, ih hcs⟩
    · next hz =>
      obtain ⟨hlow, -⟩ := isUpper_iff.mp hc
      obtain ⟨hhigh, hnat⟩ := toNat_succ hc hz
      exact List.forall_mem_cons.mpr ⟨isUpper_iff.mpr (by omega), hcs⟩

theorem indexOfChars_nextReversed (h : ∀ c ∈ cs, c.isUpper) :
    indexOfChars (nextReversed cs).reverse = indexOfChars cs.reverse + 1 := by
  induction cs with
  | nil => rfl
  | cons c cs ih =>
    obtain ⟨hc, hcs⟩ := List.forall_mem_cons.mp h
    rw [nextReversed]
    split
    · next hz =>
      -- the carry goes to the letters before
      subst hz
      rw [List.reverse_cons, List.reverse_cons, indexOfChars_concat, indexOfChars_concat, ih hcs,
        show place 'A' = 1 from rfl, show place 'Z' = 26 from rfl]
      ring
    · next hz =>
      obtain ⟨-, hnat⟩ := toNat_succ hc hz
      rw [List.reverse_cons, List.reverse_cons, indexOfChars_concat, indexOfChars_concat, place,
        place, hnat]
      omega

theorem isCapital_next (h : IsCapital name) : IsCapital (next name) := by
  intro c hc
  rw [next, String.toList_ofList, List.mem_reverse] at hc
  exact isUpper_nextReversed (fun d hd => h d (List.mem_reverse.mp hd)) c hc

theorem index_next (h : IsCapital name) : index (next name) = index name + 1 := by
  rw [index_of_isCapital (isCapital_next h), index_of_isCapital h, next, String.toList_ofList,
    indexOfChars_nextReversed (fun c hc => h c (List.mem_reverse.mp hc)), List.reverse_reverse]

/-! ## The columns on the way -/

/-- The columns that are met on the way from one column to another. -/
inductive Stretch : String → String → List String → Prop where
  | last (name : String) : Stretch name name [name]
  | next {first last : String} {names : List String} (h : Stretch (next first) last names) :
      Stretch first last (first :: names)

variable {first last : String} {names : List String}

theorem interval_cons {first last : Int} (h : first ≤ last) :
    interval first last = first :: interval (first + 1) last := by
  have hlength : (last + 1 - first).toNat = (last + 1 - (first + 1)).toNat + 1 := by omega
  rw [interval, hlength, List.range_succ_eq_map, List.map_cons, List.map_map, interval]
  congr 1
  · simp
  · apply List.map_congr_left
    intro k _
    simp only [Function.comp_apply, Nat.cast_succ]
    ring

theorem interval_eq_nil {first last : Int} (h : last < first) : interval first last = [] := by
  rw [interval, show (last + 1 - first).toNat = 0 from by omega]
  rfl

theorem span_cons (hfirst : IsCapital first) (h : index first ≤ index last) :
    span first last = first :: span (next first) last := by
  rw [span, interval_cons h, List.map_cons, letters_index hfirst, span, index_next hfirst]

theorem span_self (h : IsCapital name) : span name name = [name] := by
  rw [span_cons h le_rfl, span, index_next h, interval_eq_nil (by omega)]
  rfl

theorem Stretch.index_le (h : Stretch first last names) (hfirst : IsCapital first) :
    index first ≤ index last := by
  induction h with
  | last name => exact le_rfl
  | next _ ih =>
    have hle := ih (isCapital_next hfirst)
    rw [index_next hfirst] at hle
    omega

theorem Stretch.eq_span (h : Stretch first last names) (hfirst : IsCapital first) :
    names = span first last := by
  induction h with
  | last name => exact (span_self hfirst).symm
  | next h ih =>
    rw [span_cons hfirst ((Stretch.next h).index_le hfirst), ih (isCapital_next hfirst)]

theorem span_eq_nil (h : index last < index first) : span first last = [] := by
  rw [span, interval_eq_nil h]
  rfl

/-- The way from one column to another leads over the columns of the span, if there are any. -/
theorem stretch_iff (hfirst : IsCapital first) (hlast : IsCapital last) :
    Stretch first last names ↔ names = span first last ∧ span first last ≠ [] := by
  constructor
  · intro h
    refine ⟨h.eq_span hfirst, ?_⟩
    rw [span_cons hfirst (h.index_le hfirst)]
    exact List.cons_ne_nil _ _
  · rintro ⟨hnames, hne⟩
    have hle : index first ≤ index last := not_lt.mp fun hlt => hne (span_eq_nil hlt)
    rw [hnames]
    clear hnames hne
    -- the number of columns that are still ahead
    obtain ⟨n, hn⟩ := Int.le.dest hle
    induction n generalizing first with
    | zero =>
      have hsame : first = last := by
        rw [← letters_index hfirst, ← letters_index hlast, ← hn]
        simp
      subst hsame
      rw [span_self hfirst]
      exact .last first
    | succ n ih =>
      rw [span_cons hfirst hle]
      have hnext := index_next hfirst
      exact .next (ih (isCapital_next hfirst) (by omega) (by omega))

end Columns

end SheetIntake
