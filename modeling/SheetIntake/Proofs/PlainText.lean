import SheetIntake.Formula.Translation
import SheetIntake.Proofs.JsonNumbers

/-!
# Texts without quotes

Neither a printed number nor a text that shows a number holds a quote of either kind.

* `Decimal.isQuoteFree_text`, `Decimal.isQuoteFree_toString` — printed numbers have no quotes.
-/

namespace SheetIntake

namespace Text

theorem replaceChars_singleton (x : Char) (insert cs : List Char) :
    replaceChars [x] insert 0 cs = cs.flatMap (fun c => if c = x then insert else [c]) := by
  induction cs with
  | nil => rfl
  | cons c cs ih =>
    rw [replaceChars, List.flatMap_cons, ← ih]
    by_cases hc : c = x
    · subst hc
      simp
    · have hne : x ≠ c := Ne.symm hc
      simp [hc, hne]

def IsQuoteFree (cs : List Char) : Prop :=
  '\'' ∉ cs ∧ '"' ∉ cs

instance (cs : List Char) : Decidable (IsQuoteFree cs) :=
  inferInstanceAs (Decidable (_ ∧ _))

theorem isQuoteFree_append {a b : List Char} :
    IsQuoteFree (a ++ b) ↔ IsQuoteFree a ∧ IsQuoteFree b := by
  simp only [IsQuoteFree, List.mem_append, not_or]
  exact and_and_and_comm

theorem isQuoteFree_intercalate {sep : String} (hsep : IsQuoteFree sep.toList) {ss : List String}
    (h : ∀ s ∈ ss, IsQuoteFree s.toList) : IsQuoteFree (String.intercalate sep ss).toList := by
  induction ss with
  | nil => exact ⟨List.not_mem_nil, List.not_mem_nil⟩
  | cons s ss ih =>
    obtain ⟨hs, hss⟩ := List.forall_mem_cons.mp h
    cases ss with
    | nil => simpa using hs
    | cons r ss =>
      rw [String.intercalate_cons_cons, String.toList_append, String.toList_append,
        isQuoteFree_append, isQuoteFree_append]
      exact ⟨⟨hs, hsep⟩, ih hss⟩

theorem isQuoteFree_of_forall {p : Char → Bool} {cs : List Char} (h : ∀ c ∈ cs, p c)
    (hsingle : p '\'' = false) (hdouble : p '"' = false) : IsQuoteFree cs :=
  ⟨fun hmem => absurd (h _ hmem) (by simp [hsingle]),
    fun hmem => absurd (h _ hmem) (by simp [hdouble])⟩

end Text

namespace Decimal

open Text

/-! ## Printed numbers -/

def isNumberChar (c : Char) : Bool :=
  c.isDigit || ['.', 'e', 'E', '+', '-'].contains c

variable {c : Char}

theorem isNumberChar_of_isDigit (h : c.isDigit) : isNumberChar c := by
  rw [isNumberChar, h, Bool.true_or]

theorem isNumberChar_render (d : Decimal) : ∀ c ∈ d.render .text, isNumberChar c := by
  have hprinted := Json.printed_render d
  generalize d.render .text = cs at hprinted ⊢
  cases hprinted with
  | pointed hwhole _ hfraction =>
    simp only [List.forall_mem_append, List.forall_mem_cons]
    exact ⟨fun c hc => isNumberChar_of_isDigit (hwhole.2 c hc), rfl,
      fun c hc => isNumberChar_of_isDigit (hfraction.2 c hc)⟩
  | scaled minus hc _ hpoint hds =>
    simp only [List.forall_mem_append, List.forall_mem_cons]
    refine ⟨isNumberChar_of_isDigit hc, ?_, rfl, by cases minus <;> rfl,
      fun c hc => isNumberChar_of_isDigit (hds.2 c hc)⟩
    rcases hpoint with ⟨rfl, -⟩ | ⟨rfl, -, hfraction⟩
    · exact List.forall_mem_nil _
    · exact List.forall_mem_cons.mpr ⟨rfl, fun c hc => isNumberChar_of_isDigit (hfraction c hc)⟩

theorem isQuoteFree_text (x : Binary64) : IsQuoteFree x.text.toList := by
  cases x with
  | nan => decide
  | infinite negative => cases negative <;> decide
  | finite negative m e h =>
    have hrender := isNumberChar_render (shortest m e)
    refine isQuoteFree_of_forall (p := isNumberChar) ?_ (by decide) (by decide)
    intro c hc
    simp only [Binary64.text, String.toList_ofList] at hc
    split at hc
    · rcases List.mem_cons.mp hc with rfl | hc
      · rfl
      · exact hrender c hc
    · exact hrender c hc

theorem isQuoteFree_toString (n : Int) : IsQuoteFree (toString n).toList := by
  refine isQuoteFree_of_forall (p := isNumberChar) (fun c hc => ?_) (by decide) (by decide)
  rcases Json.isDigit_or_dash_of_mem_toString hc with rfl | hc
  · rfl
  · exact isNumberChar_of_isDigit hc

/-! ## Texts that are read as numbers

The reader drops blanks, low lines and a sign, so a character that is none of these is still there
where the digits are looked at. -/

variable {cs : List Char}

theorem mem_dropWhile {p : Char → Bool} (hc : p c = false) (h : c ∈ cs) : c ∈ cs.dropWhile p := by
  rw [← List.takeWhile_append_dropWhile (p := p) (l := cs)] at h
  rcases List.mem_append.mp h with h | h
  · have hall := List.all_eq_true.mp (List.all_takeWhile (p := p) (l := cs)) c h
    exact absurd hall (by simp [hc])
  · exact h

theorem mem_numberChars {s : String} (hmargin : isMargin c = false) (hdigit : plainDigit c = c)
    (h : c ∈ s.toList) : c ∈ numberChars s := by
  refine List.mem_map.mpr ⟨c, ?_, hdigit⟩
  rw [List.mem_reverse]
  exact mem_dropWhile hmargin (List.mem_reverse.mpr (mem_dropWhile hmargin h))

theorem mem_joinDigits (hc : c ≠ '_') {afterDigit : Bool} {ds : List Char}
    (hds : joinDigits afterDigit cs = some ds) (h : c ∈ cs) : c ∈ ds := by
  fun_induction joinDigits afterDigit cs generalizing ds with
  | case1 => cases h
  | case2 => cases hds
  | case3 afterDigit d rest _ ih =>
    obtain ⟨es, hes, rfl⟩ := Option.map_eq_some_iff.mp hds
    simp only [List.mem_cons, hc, false_or] at h ⊢
    exact h.imp_right (ih hes)
  | case4 => cases hds
  | case5 afterDigit d rest _ _ ih =>
    obtain ⟨es, hes, rfl⟩ := Option.map_eq_some_iff.mp hds
    rw [List.mem_cons] at h ⊢
    exact h.imp_right (ih hes)

theorem mem_splitSign (hminus : c ≠ '-') (hplus : c ≠ '+') (h : c ∈ cs) : c ∈ (splitSign cs).2 := by
  unfold splitSign
  split
  · exact (List.mem_cons.mp h).resolve_left hminus
  · exact (List.mem_cons.mp h).resolve_left hplus
  · exact h

theorem isDigit_of_onlyDigits (h : onlyDigits cs) (hc : c ∈ cs) : c.isDigit := by
  rw [onlyDigits, Bool.and_eq_true] at h
  exact List.all_eq_true.mp h.2 c hc

theorem isNumberChar_of_mem_takeWhile (h : c ∈ cs.takeWhile Char.isDigit) : isNumberChar c :=
  isNumberChar_of_isDigit (List.all_eq_true.mp List.all_takeWhile c h)

theorem isNumberChar_of_readExponent? {n : Int} (h : readExponent? cs = some n) :
    ∀ c ∈ cs, isNumberChar c := by
  intro c hc
  cases cs with
  | nil => cases hc
  | cons d rest =>
    simp only [readExponent?] at h
    split at h
    · next hd =>
      split at h
      · next hdigits =>
        rcases List.mem_cons.mp hc with rfl | hc
        · rcases hd with rfl | rfl <;> rfl
        by_cases hminus : c = '-'
        · rw [hminus]
          rfl
        by_cases hplus : c = '+'
        · rw [hplus]
          rfl
        exact isNumberChar_of_isDigit
          (isDigit_of_onlyDigits hdigits (mem_splitSign hminus hplus hc))
      · cases h
    · cases h

theorem isNumberChar_of_readMagnitude? {negative : Bool} {x : Binary64}
    (h : readMagnitude? negative cs = some x) : ∀ c ∈ cs, isNumberChar c := by
  intro c hc
  rw [← List.takeWhile_append_dropWhile (p := Char.isDigit) (l := cs)] at hc
  rcases List.mem_append.mp hc with hc | hc
  · exact isNumberChar_of_mem_takeWhile hc
  simp only [readMagnitude?] at h
  -- without a point the exponent follows the digits, with one it follows the fraction
  split at h
  · next tail htail =>
    rw [htail, List.mem_cons] at hc
    rcases hc with rfl | hc
    · rfl
    rw [← List.takeWhile_append_dropWhile (p := Char.isDigit) (l := tail)] at hc
    rcases List.mem_append.mp hc with hc | hc
    · exact isNumberChar_of_mem_takeWhile hc
    · split at h
      · cases h
      split at h
      · cases h
      · next hexponent => exact isNumberChar_of_readExponent? hexponent c hc
  · split at h
    · cases h
    split at h
    · cases h
    · next hexponent => exact isNumberChar_of_readExponent? hexponent c hc

theorem isQuoteFree_of_readBinary64? {s : String} {x : Binary64} (h : readBinary64? s = some x) :
    IsQuoteFree s.toList := by
  -- what a quote would have to pass, and does not
  have hquote (q : Char) (hmargin : isMargin q = false) (hdigit : plainDigit q = q)
      (hmark : q ≠ '_' ∧ q ≠ '-' ∧ q ≠ '+') (hnumber : isNumberChar q = false)
      (hword : ∀ w ∈ ["inf", "infinity", "nan"], q.toLower ∉ w.toList) : q ∉ s.toList := by
    intro hq
    unfold readBinary64? at h
    split at h
    · cases h
    next cs hcs =>
    have hmem : q ∈ (splitSign cs).2 := mem_splitSign hmark.2.1 hmark.2.2
      (mem_joinDigits hmark.1 hcs (mem_numberChars hmargin hdigit hq))
    have hne (w : String) (hw : w ∈ ["inf", "infinity", "nan"]) :
        String.ofList ((splitSign cs).2.map Char.toLower) ≠ w := by
      rintro rfl
      refine hword _ hw ?_
      rw [String.toList_ofList]
      exact List.mem_map_of_mem hmem
    simp only [hne "inf" (by simp), hne "infinity" (by simp), hne "nan" (by simp), or_self,
      if_false] at h
    exact absurd (isNumberChar_of_readMagnitude? h q hmem) (by simp [hnumber])
  exact ⟨hquote '\'' (by decide) (by decide +kernel) (by decide) (by decide) (by decide),
    hquote '"' (by decide) (by decide +kernel) (by decide) (by decide) (by decide)⟩

end Decimal

/-- A value that stands for a number is written without quotes. -/
theorem Formula.isQuoteFree_of_toNumber {v : Value} {x : Binary64} (h : toNumber v = .ok x) :
    Text.IsQuoteFree v.text.toList := by
  cases v with
  | float y => exact Decimal.isQuoteFree_text y
  | int n => exact Decimal.isQuoteFree_toString n
  | bool b => cases b <;> decide
  | str s =>
    simp only [toNumber] at h
    split at h
    · next hread => exact Decimal.isQuoteFree_of_readBinary64? hread
    · cases h
  | null | list items | object members => cases h

end SheetIntake
