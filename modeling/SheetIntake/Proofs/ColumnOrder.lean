import Mathlib.Data.List.Shortlex
import SheetIntake.Proofs.ColumnNames

/-!
# Columns in shortlex order

Letters count columns without a zero: after `Z` comes `AA`. Counts and letters determine each other.
A column has the lower count if it has fewer letters, or as many and comes first in the alphabet.

* `Columns.letters_index_inverse` — from counts to letters and back, and the other way round.
* `Columns.span_is_interval` — a span lists the columns between its ends.
-/

namespace SheetIntake.Columns

variable {cs ds : List Char} {name first last : String}

/-! ## From counts to letters and back -/

theorem indexOfChars_pos (h : ∀ c ∈ cs, c.isUpper) (hne : cs ≠ []) : 0 < indexOfChars cs := by
  obtain rfl | ⟨front, c, rfl⟩ := cs.eq_nil_or_concat'
  · exact absurd rfl hne
  · have hfront := indexOfChars_nonneg (fun d hd => h d (List.mem_append_left _ hd))
    obtain ⟨hlow, -⟩ := isUpper_iff.mp (h c (by simp))
    rw [indexOfChars_concat, place]
    omega

theorem letterChars_spec (n : Nat) :
    (∀ c ∈ letterChars n, c.isUpper) ∧ indexOfChars (letterChars n) = n := by
  induction n using letterChars.induct with
  | case1 =>
    rw [letterChars]
    exact ⟨fun c hc => absurd hc List.not_mem_nil, rfl⟩
  | case2 m ih =>
    obtain ⟨hupper, hindex⟩ := ih
    have hletter : (letter (m % 26)).toNat = 65 + m % 26 := toNat_ofNat (by omega)
    have hlast : (letter (m % 26)).isUpper := isUpper_iff.mpr (by omega)
    rw [letterChars, indexOfChars_concat, hindex, place, hletter]
    refine ⟨fun c hc => ?_, by omega⟩
    rcases List.mem_append.mp hc with hfront | hend
    · exact hupper c hfront
    · rwa [List.mem_singleton.mp hend]

theorem isCapital_letters (n : Int) : IsCapital (letters n) := by
  intro c hc
  rw [letters, String.toList_ofList] at hc
  exact (letterChars_spec n.toNat).1 c hc

theorem index_letters {n : Int} (h : 0 ≤ n) : index (letters n) = n := by
  rw [index_of_isCapital (isCapital_letters n), letters, String.toList_ofList,
    (letterChars_spec n.toNat).2, Int.toNat_of_nonneg h]

theorem index_nonneg (h : IsCapital name) : 0 ≤ index name := by
  rw [index_of_isCapital h]
  exact indexOfChars_nonneg h

theorem index_pos (h : IsCapital name) (hne : name ≠ "") : 1 ≤ index name := by
  rw [index_of_isCapital h]
  exact indexOfChars_pos h (fun hnil => hne (String.toList_eq_nil_iff.mp hnil))

theorem letters_ne_empty {n : Int} (h : 1 ≤ n) : letters n ≠ "" := by
  intro hempty
  have hindex := index_letters (Int.le_trans Int.one_nonneg h)
  rw [hempty, show index "" = 0 from rfl] at hindex
  omega

theorem upperChars_of_isAlpha {c : Char} (h : c.isAlpha) :
    Text.upperChars c = [c.toUpper] ∧ c.toUpper.isUpper := by
  have htable : ∀ start ∈ [65, 97], ∀ n < 26,
      Text.upperChars (Char.ofNat (start + n)) = [(Char.ofNat (start + n)).toUpper]
        ∧ (Char.ofNat (start + n)).toUpper.isUpper := by decide +kernel
  have hletter : ∃ start ∈ [65, 97], start ≤ c.toNat ∧ c.toNat < start + 26 := by
    rcases Bool.or_eq_true_iff.mp h with hupper | hlower
    · have hbounds := isUpper_iff.mp hupper
      exact ⟨65, by decide, by omega⟩
    · rw [show c.isLower = (decide (c.val ≥ 'a'.val) && decide (c.val ≤ 'z'.val)) from rfl,
        Bool.and_eq_true, decide_eq_true_eq, decide_eq_true_eq] at hlower
      have hlow : 97 ≤ c.toNat := UInt32.le_iff_toNat_le.mp hlower.1
      have hhigh : c.toNat ≤ 122 := UInt32.le_iff_toNat_le.mp hlower.2
      exact ⟨97, by decide, by omega⟩
  obtain ⟨start, hstart, hlow, hhigh⟩ := hletter
  have hc : Char.ofNat (start + (c.toNat - start)) = c := by
    rw [Nat.add_sub_of_le hlow, Char.ofNat_toNat]
  exact hc ▸ htable start hstart (c.toNat - start) (by omega)

theorem toList_upper (h : ∀ c ∈ name.toList, c.isAlpha) :
    (Text.upper name).toList = name.toList.map Char.toUpper := by
  rw [Text.upper, String.toList_ofList,
    List.flatMap_congr (fun c hc => (upperChars_of_isAlpha (h c hc)).1), List.map_eq_flatMap]

theorem isCapital_upper (h : ∀ c ∈ name.toList, c.isAlpha) : IsCapital (Text.upper name) := by
  intro d hd
  rw [toList_upper h] at hd
  obtain ⟨c, hc, rfl⟩ := List.mem_map.mp hd
  exact (upperChars_of_isAlpha (h c hc)).2

theorem index_upper (h : ∀ c ∈ name.toList, c.isAlpha) : index (Text.upper name) = index name := by
  rw [index_of_isCapital (isCapital_upper h), index]

/-- Every count from one on has letters, and these have that count. Letters of either case have a
count from one on, and it gives them back in upper case. -/
theorem letters_index_inverse :
    (∀ n : Int, 1 ≤ n → letters n ≠ "" ∧ IsCapital (letters n) ∧ index (letters n) = n)
      ∧ ∀ name : String, name ≠ "" → (∀ c ∈ name.toList, c.isAlpha = true) →
        1 ≤ index name ∧ (letters (index name)).toList = name.toList.map Char.toUpper := by
  refine ⟨fun n hn => ⟨letters_ne_empty hn, isCapital_letters n, index_letters (by omega)⟩,
    fun name hne hname => ?_⟩
  have hupper : Text.upper name ≠ "" := by
    intro hempty
    have hlist := toList_upper hname
    rw [hempty] at hlist
    exact hne (String.toList_eq_nil_iff.mp (List.map_eq_nil_iff.mp hlist.symm))
  have hpos := index_pos (isCapital_upper hname) hupper
  have hletters := letters_index (isCapital_upper hname)
  rw [index_upper hname] at hpos hletters
  exact ⟨hpos, by rw [hletters, toList_upper hname]⟩

theorem mixed_case_counted : letters 703 ≠ "" ∧ index (letters 703) = 703
    ∧ (letters (index "aZz")).toList = ['A', 'Z', 'Z'] := by
  obtain ⟨hletters, hnames⟩ := letters_index_inverse
  obtain ⟨hne, -, hindex⟩ := hletters 703 (by decide)
  exact ⟨hne, hindex, (hnames "aZz" (by decide) (List.all_eq_true.mp rfl)).2⟩

/-! ## The order of columns -/

/-- Whether a column stands before another: it has fewer letters, or as many and comes first in the
alphabet. -/
def Precedes (a b : String) : Prop :=
  List.Shortlex (· < ·) a.toList b.toList

/-- The count of letters that follow others with a count. -/
def indexFrom (n : Int) (cs : List Char) : Int :=
  cs.foldl (fun n c => n * 26 + place c) n

theorem place_bounds {c : Char} (h : c.isUpper) : 1 ≤ place c ∧ place c ≤ 26 := by
  have hbounds := isUpper_iff.mp h
  rw [place]
  omega

/-- Of as many letters after different counts those after the lower count have the lower one. -/
theorem indexFrom_lt (hcs : ∀ c ∈ cs, c.isUpper) (hds : ∀ d ∈ ds, d.isUpper)
    (hlength : cs.length = ds.length) {n m : Int} (h : n < m) : indexFrom n cs < indexFrom m ds := by
  induction cs generalizing ds n m with
  | nil =>
    rw [List.eq_nil_of_length_eq_zero hlength.symm]
    exact h
  | cons c cs ih =>
    obtain ⟨d, ds, rfl⟩ := List.exists_cons_of_length_eq_add_one hlength.symm
    obtain ⟨hc, hcs⟩ := List.forall_mem_cons.mp hcs
    obtain ⟨hd, hds⟩ := List.forall_mem_cons.mp hds
    have hcplace := place_bounds hc
    have hdplace := place_bounds hd
    have hless : n * 26 + place c < m * 26 + place d := by omega
    exact ih hcs hds (Nat.succ.inj hlength) hless

theorem indexFrom_lt_of_lex (h : List.Lex (· < ·) cs ds) (hcs : ∀ c ∈ cs, c.isUpper)
    (hds : ∀ d ∈ ds, d.isUpper) (hlength : cs.length = ds.length) (n : Int) :
    indexFrom n cs < indexFrom n ds := by
  induction h generalizing n with
  | nil => exact absurd hlength (Nat.succ_ne_zero _).symm
  | cons _ ih =>
    exact ih (List.forall_mem_cons.mp hcs).2 (List.forall_mem_cons.mp hds).2
      (Nat.succ.inj hlength) _
  | @rel c cs d ds hless =>
    have hplace : n * 26 + place c < n * 26 + place d := by
      have hnat : c.toNat < d.toNat := UInt32.lt_iff_toNat_lt.mp hless
      rw [place, place]
      omega
    exact indexFrom_lt (List.forall_mem_cons.mp hcs).2 (List.forall_mem_cons.mp hds).2
      (Nat.succ.inj hlength) hplace

theorem indexOfChars_lt_of_shortlex (h : List.Shortlex (· < ·) cs ds) (hcs : ∀ c ∈ cs, c.isUpper)
    (hds : ∀ d ∈ ds, d.isUpper) : indexOfChars cs < indexOfChars ds := by
  rcases List.shortlex_def.mp h with hshorter | ⟨hlength, hlex⟩
  · -- the letters that the other has before count for something
    obtain ⟨front, back, rfl, hback⟩ : ∃ front back, ds = front ++ back ∧ back.length = cs.length :=
      ⟨_, _, (List.take_append_drop (ds.length - cs.length) ds).symm, by
        rw [List.length_drop]; omega⟩
    rw [List.length_append, hback] at hshorter
    have hfront : 0 < indexOfChars front :=
      indexOfChars_pos (fun d hd => hds d (List.mem_append_left _ hd))
        (List.length_pos_iff.mp (by omega))
    have hlt := indexFrom_lt hcs (fun d hd => hds d (List.mem_append_right _ hd)) hback.symm hfront
    rw [show indexOfChars (front ++ back) = indexFrom (indexOfChars front) back from
      List.foldl_append]
    exact hlt
  · exact indexFrom_lt_of_lex hlex hcs hds hlength 0

theorem index_inj (hfirst : IsCapital first) (hlast : IsCapital last) :
    index first = index last ↔ first = last := by
  refine ⟨fun h => ?_, congrArg index⟩
  rw [← letters_index hfirst, h, letters_index hlast]

theorem precedes_iff (hfirst : IsCapital first) (hlast : IsCapital last) :
    Precedes first last ↔ index first < index last := by
  have hlt {a b : String} (ha : IsCapital a) (hb : IsCapital b) (h : Precedes a b) :
      index a < index b := by
    rw [index_of_isCapital ha, index_of_isCapital hb]
    exact indexOfChars_lt_of_shortlex h ha hb
  refine ⟨hlt hfirst hlast, fun h => ?_⟩
  by_contra hnot
  have hother : ¬ Precedes last first := fun hlater => by
    have := hlt hlast hfirst hlater
    omega
  have hsame := List.Shortlex.trichotomous.trichotomous _ _ hnot hother
  rw [String.toList_inj.mp hsame] at h
  omega

theorem le_iff_precedes (hfirst : IsCapital first) (hlast : IsCapital last) :
    index first ≤ index last ↔ first = last ∨ Precedes first last := by
  rw [precedes_iff hfirst hlast, ← index_inj hfirst hlast]
  omega

/-! ## Spans -/

theorem mem_interval {first last n : Int} : n ∈ interval first last ↔ first ≤ n ∧ n ≤ last := by
  simp only [interval, List.mem_map, List.mem_range]
  constructor
  · rintro ⟨k, hk, rfl⟩
    omega
  · rintro ⟨hfirst, hlast⟩
    exact ⟨(n - first).toNat, by omega, by omega⟩

theorem pairwise_interval (first last : Int) : (interval first last).Pairwise (· < ·) := by
  refine List.pairwise_map.mpr (List.pairwise_lt_range.imp ?_)
  omega

theorem isCapital_of_mem_span (h : name ∈ span first last) : IsCapital name := by
  obtain ⟨n, -, rfl⟩ := List.mem_map.mp h
  exact isCapital_letters n

theorem mem_span (hfirst : IsCapital first) (hname : IsCapital name) :
    name ∈ span first last ↔ index first ≤ index name ∧ index name ≤ index last := by
  rw [span, List.mem_map]
  refine ⟨?_, fun h => ⟨index name, mem_interval.mpr h, letters_index hname⟩⟩
  rintro ⟨n, hn, rfl⟩
  have hbounds := mem_interval.mp hn
  rwa [index_letters ((index_nonneg hfirst).trans hbounds.1)]

theorem mem_span_iff (hfirst : IsCapital first) (hne : first ≠ "") (last : String) :
    name ∈ span first last ↔ (name ≠ "" ∧ IsCapital name)
      ∧ index first ≤ index name ∧ index name ≤ index last := by
  refine ⟨fun h => ?_, fun h => (mem_span hfirst h.1.2).mpr h.2⟩
  have hname := isCapital_of_mem_span h
  have hbetween := (mem_span hfirst hname).mp h
  refine ⟨⟨?_, hname⟩, hbetween⟩
  rintro rfl
  have hpos := index_pos hfirst hne
  have hempty : index "" = 0 := rfl
  omega

theorem pairwise_span (hfirst : IsCapital first) (last : String) :
    (span first last).Pairwise Precedes := by
  have hnonneg := index_nonneg hfirst
  refine List.pairwise_map.mpr ((pairwise_interval _ _).imp_of_mem fun hn hm hlt => ?_)
  have hn := (mem_interval.mp hn).1
  rw [precedes_iff (isCapital_letters _) (isCapital_letters _), index_letters (by omega),
    index_letters (by omega)]
  exact hlt

/-- A span lists, in order and once each, the columns that stand neither before its first nor after
its last, and is empty if the last stands before the first. -/
theorem span_is_interval (hfirst : IsCapital first) (hne : first ≠ "") (hlast : IsCapital last) :
    (span first last).Pairwise Precedes ∧ (span first last).Nodup
      ∧ (∀ w, w ∈ span first last ↔ (w ≠ "" ∧ IsCapital w)
        ∧ (first = w ∨ Precedes first w) ∧ (w = last ∨ Precedes w last))
      ∧ (span first last = [] ↔ Precedes last first) := by
  have hordered := pairwise_span hfirst last
  refine ⟨hordered, hordered.imp_of_mem fun ha hb hprecedes hsame => ?_, fun w => ?_, ?_⟩
  · have hcapital := ((mem_span_iff hfirst hne last).mp ha).1.2
    rw [← hsame, precedes_iff hcapital hcapital] at hprecedes
    exact absurd hprecedes (lt_irrefl _)
  · rw [mem_span_iff hfirst hne]
    refine and_congr_right fun hw => ?_
    rw [le_iff_precedes hfirst hw.2, le_iff_precedes hw.2 hlast]
  · rw [precedes_iff hlast hfirst]
    refine ⟨fun hnil => ?_, span_eq_nil⟩
    by_contra hle
    have hmem := (mem_span_iff hfirst hne last).mpr
      ⟨⟨hne, hfirst⟩, le_rfl, not_lt.mp hle⟩
    rw [hnil] at hmem
    exact absurd hmem List.not_mem_nil

theorem span_across_lengths :
    "AA" ∈ span "Y" "AB" ∧ (span "Y" "AB").Pairwise Precedes ∧ span "AB" "Y" = [] := by
  obtain ⟨hordered, -, hmem, -⟩ :=
    @span_is_interval "Y" "AB" (by decide) (by decide) (by decide)
  obtain ⟨-, -, -, hempty⟩ :=
    @span_is_interval "AB" "Y" (by decide) (by decide) (by decide)
  have hshorter : Precedes "Y" "AB" := .of_length_lt (by decide)
  refine ⟨(hmem "AA").mpr ⟨by decide, .inr (.of_length_lt (by decide)), .inr ?_⟩, hordered,
    hempty.mpr hshorter⟩
  exact .of_lex rfl (.cons (.rel (by decide)))

end SheetIntake.Columns
