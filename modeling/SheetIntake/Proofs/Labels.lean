import SheetIntake.Schema.Batch
import Mathlib.Data.List.Basic

/-!
# Labels in texts

Every item of a batch is called by a label. A label starts with a capital and ends with a colon, and
it has neither in between, so two labels in a text never overlap and none is the start of another.
Replacing one label by another therefore can be read off from the text.
-/

namespace SheetIntake.Text

/-- A text that starts with a character, ends with another one, and has neither in between. -/
def Marked (first last : Char) (p : List Char) : Prop :=
  first ≠ last ∧ ∃ w, p = first :: (w ++ [last]) ∧ first ∉ w ∧ last ∉ w

variable {first last : Char} {p p₁ p₂ q cs rest xs : List Char}

namespace Marked

theorem exists_tail (h : Marked first last p) : ∃ t, p = first :: t ∧ first ∉ t := by
  obtain ⟨hne, w, rfl, hfirst, -⟩ := h
  exact ⟨w ++ [last], rfl, by simp [hfirst, hne]⟩

theorem ne_nil (h : Marked first last p) : p ≠ [] := by
  obtain ⟨t, rfl, -⟩ := h.exists_tail
  exact List.cons_ne_nil first t

theorem eq_of_isPrefix (hp : Marked first last p) (hq : Marked first last q) (h : p <+: q) :
    p = q := by
  obtain ⟨-, w, rfl, -, -⟩ := hp
  obtain ⟨-, v, rfl, -, hlast⟩ := hq
  have htail := (List.cons_prefix_cons.mp h).2
  rcases List.prefix_concat_iff.mp htail with heq | hstart
  · rw [heq]
  · -- the last character of `p` would stand inside `q`
    exact absurd (hstart.subset (List.mem_append_right w (.head _))) hlast

theorem eq_of_append_eq (hp : Marked first last p) (hq : Marked first last q)
    (h : p ++ xs = q ++ rest) : p = q := by
  rcases List.prefix_or_prefix_of_prefix ⟨xs, h⟩ (List.prefix_append q rest) with hpq | hqp
  · exact hp.eq_of_isPrefix hq hpq
  · exact (hq.eq_of_isPrefix hp hqp).symm

end Marked

/-! ## Replacing and searching -/

theorem replaceChars_skip (p q xs cs : List Char) :
    replaceChars p q xs.length (xs ++ cs) = replaceChars p q 0 cs := by
  induction xs with
  | nil => rfl
  | cons x xs ih => exact ih

theorem replaceChars_append_self (hp : p ≠ []) (q rest : List Char) :
    replaceChars p q 0 (p ++ rest) = q ++ replaceChars p q 0 rest := by
  obtain ⟨c, t, rfl⟩ := List.exists_cons_of_ne_nil hp
  have hstart : (c :: t).isPrefixOf (c :: (t ++ rest)) :=
    List.isPrefixOf_iff_prefix.mpr ⟨rest, rfl⟩
  show replaceChars (c :: t) q 0 (c :: (t ++ rest)) = _
  rw [replaceChars, if_pos hstart]
  exact congrArg (q ++ ·) (replaceChars_skip (c :: t) q t rest)

theorem replaceChars_cons_of_not_start {c : Char} (h : ¬ p <+: c :: cs) (q : List Char) :
    replaceChars p q 0 (c :: cs) = c :: replaceChars p q 0 cs := by
  rw [replaceChars, if_neg]
  rwa [List.isPrefixOf_iff_prefix]

theorem occursIn_cons_of_not_start {c : Char} (h : ¬ p <+: c :: cs) :
    occursIn p (c :: cs) = occursIn p cs := by
  have hstart : p.isPrefixOf (c :: cs) = false := by
    rwa [← Bool.not_eq_true, List.isPrefixOf_iff_prefix]
  rw [occursIn, hstart, Bool.false_or]

theorem replaceChars_of_not_occursIn (q : List Char) (h : occursIn p cs = false) :
    replaceChars p q 0 cs = cs := by
  induction cs with
  | nil => rfl
  | cons c cs ih =>
    rw [occursIn, Bool.or_eq_false_iff] at h
    rw [replaceChars, h.1, ih h.2]
    rfl

theorem replaceChars_self (hp : p ≠ []) (n : Nat) (cs : List Char) :
    replaceChars p p n cs = cs.drop n := by
  induction cs generalizing n with
  | nil => simp [replaceChars]
  | cons c cs ih =>
    cases n with
    | succ n => exact ih n
    | zero =>
      rw [replaceChars, ih, ih, List.drop_zero, List.drop_zero]
      split_ifs with hstart
      · obtain ⟨rest, hrest⟩ := List.isPrefixOf_iff_prefix.mp hstart
        obtain ⟨d, t, rfl⟩ := List.exists_cons_of_ne_nil hp
        obtain ⟨rfl, rfl⟩ := List.cons.inj hrest
        simp
      · rfl

theorem passed_of_not_mem (hp : Marked first last p) (h : first ∉ xs) (cs : List Char) :
    (∀ q, replaceChars p q 0 (xs ++ cs) = xs ++ replaceChars p q 0 cs)
      ∧ occursIn p (xs ++ cs) = occursIn p cs := by
  obtain ⟨t, rfl, -⟩ := hp.exists_tail
  induction xs with
  | nil => exact ⟨fun _ => rfl, rfl⟩
  | cons x xs ih =>
    rw [List.mem_cons, not_or] at h
    obtain ⟨hreplace, hoccurs⟩ := ih h.2
    have hstart : ¬ first :: t <+: x :: (xs ++ cs) :=
      fun hstart => h.1 (List.cons_prefix_cons.mp hstart).1
    rw [List.cons_append, occursIn_cons_of_not_start hstart]
    refine ⟨fun q => ?_, hoccurs⟩
    rw [replaceChars_cons_of_not_start hstart, hreplace, List.cons_append]

theorem not_isPrefix_append (hp : Marked first last p) (hq : Marked first last q) (hne : p ≠ q)
    (rest : List Char) : ¬ p <+: q ++ rest := by
  intro hstart
  obtain ⟨xs, hxs⟩ := hstart
  exact hne (hp.eq_of_append_eq hq hxs)

theorem passed_of_ne (hp : Marked first last p) (hm : Marked first last xs) (hne : p ≠ xs)
    (rest : List Char) : (∀ q, replaceChars p q 0 (xs ++ rest) = xs ++ replaceChars p q 0 rest)
      ∧ occursIn p (xs ++ rest) = occursIn p rest := by
  have hstart := not_isPrefix_append hp hm hne rest
  obtain ⟨t, rfl, htail⟩ := hm.exists_tail
  obtain ⟨hreplace, hoccurs⟩ := passed_of_not_mem hp htail rest
  rw [List.cons_append] at hstart ⊢
  rw [occursIn_cons_of_not_start hstart]
  refine ⟨fun q => ?_, hoccurs⟩
  rw [replaceChars_cons_of_not_start hstart, hreplace]
  rfl

theorem replaceChars_ne (h₁ : Marked first last p₁) (h₂ : Marked first last p₂)
    (hq : Marked first last q) (hne : p₁ ≠ p₂) (hq₁ : p₁ ≠ q) :
    ∀ cs : List Char, occursIn p₁ cs → replaceChars p₁ q 0 cs ≠ replaceChars p₂ q 0 cs
  | [], hocc => absurd (List.isEmpty_iff.mp hocc) h₁.ne_nil
  | c :: cs, hocc => by
    intro heq
    by_cases hstart₁ : p₁ <+: c :: cs
    · -- here `q` stands in one result and `p₁` in the other
      obtain ⟨rest, hrest⟩ := hstart₁
      rw [← hrest, replaceChars_append_self h₁.ne_nil, (passed_of_ne h₂ h₁ hne.symm rest).1] at heq
      exact hq₁ (hq.eq_of_append_eq h₁ heq).symm
    by_cases hstart₂ : p₂ <+: c :: cs
    · obtain ⟨rest, hrest⟩ := hstart₂
      obtain ⟨hreplace, hoccurs⟩ := passed_of_ne h₁ h₂ hne rest
      rw [← hrest, replaceChars_append_self h₂.ne_nil, hreplace] at heq
      have hlength : p₂.length = q.length := congrArg List.length (h₂.eq_of_append_eq hq heq)
      rw [← hrest, hoccurs] at hocc
      have hlt : rest.length < (c :: cs).length := by
        have hpos := List.length_pos_of_ne_nil h₂.ne_nil
        rw [← hrest, List.length_append]
        omega
      exact replaceChars_ne h₁ h₂ hq hne hq₁ rest hocc (List.append_inj_right heq hlength)
    · rw [replaceChars_cons_of_not_start hstart₁, replaceChars_cons_of_not_start hstart₂] at heq
      rw [occursIn_cons_of_not_start hstart₁] at hocc
      exact replaceChars_ne h₁ h₂ hq hne hq₁ cs hocc (List.cons.inj heq).2
  termination_by cs => cs.length
  decreasing_by
  · exact hlt
  · exact Nat.lt_succ_self cs.length

/-- Two marks are replaced by a third one. The results are the same exactly when the marks are, or
when nothing is replaced by something else. -/
theorem replaceChars_eq_iff (h₁ : Marked first last p₁) (h₂ : Marked first last p₂)
    (hq : Marked first last q) : replaceChars p₁ q 0 cs = replaceChars p₂ q 0 cs ↔
      p₁ = p₂ ∨ ((p₁ = q ∨ occursIn p₁ cs = false) ∧ (p₂ = q ∨ occursIn p₂ cs = false)) := by
  have hplain {p : List Char} (hp : Marked first last p) (h : p = q ∨ occursIn p cs = false) :
      replaceChars p q 0 cs = cs := by
    rcases h with rfl | hno
    · exact replaceChars_self hp.ne_nil 0 cs
    · exact replaceChars_of_not_occursIn q hno
  constructor
  · intro heq
    by_cases hne : p₁ = p₂
    · exact .inl hne
    refine .inr ⟨?_, ?_⟩
    · by_contra hnot
      rw [not_or, Bool.not_eq_false] at hnot
      exact replaceChars_ne h₁ h₂ hq hne hnot.1 cs hnot.2 heq
    · by_contra hnot
      rw [not_or, Bool.not_eq_false] at hnot
      exact replaceChars_ne h₂ h₁ hq (Ne.symm hne) hnot.1 cs hnot.2 heq.symm
  · rintro (rfl | ⟨hno₁, hno₂⟩)
    · rfl
    · rw [hplain h₁ hno₁, hplain h₂ hno₂]

end SheetIntake.Text

namespace SheetIntake.Schema.ItemError

open SheetIntake.Text

theorem toList_label (n : Nat) :
    (label n).toList = 'I' :: ('t' :: 'e' :: 'm' :: ' ' :: Nat.toDigits 10 n ++ [':']) := by
  unfold label
  rw [String.toList_append, String.toList_append]
  show _ ++ (Nat.repr n).toList ++ _ = _
  simp

theorem marked_label (n : Nat) : Marked 'I' ':' (label n).toList := by
  refine ⟨by decide, _, toList_label n, ?_, ?_⟩
  all_goals
    intro hmem
    simp only [List.mem_cons, Char.reduceEq, false_or] at hmem
    cases Nat.isDigit_of_mem_toDigits (by decide) (by decide) hmem

theorem label_inj {n m : Nat} : label n = label m ↔ n = m := by
  refine ⟨fun h => ?_, fun h => h ▸ rfl⟩
  have hchars := congrArg String.toList h
  rw [toList_label, toList_label] at hchars
  simp only [List.cons_append, List.cons.injEq, true_and, List.append_cancel_right_eq] at hchars
  have hdigits := congrArg (Nat.ofDigitChars 10 · 0) hchars
  simpa using hdigits

/-- A shifted error is called by its new label. Then its reason follows, and labels in it that look
like the old one of the item are replaced as well. -/
theorem shifted_eq (offset : Nat) (e : ItemError) :
    e.shifted offset = label (offset + e.position) ++
      (" " ++ replaceAll e.reason (label e.position) (label (offset + e.position))) := by
  have hlabel := marked_label e.position
  have hspace : 'I' ∉ " ".toList := by decide
  unfold shifted text replaceAll
  rw [String.append_assoc, String.toList_append, replaceChars_append_self hlabel.ne_nil,
    String.toList_append, (passed_of_not_mem hlabel hspace _).1, String.ofList_append,
    String.ofList_append, String.ofList_toList, String.ofList_toList]

theorem startsWith_shifted (offset : Nat) (e : ItemError) :
    startsWith (e.shifted offset) (label (offset + e.position)) := by
  unfold startsWith
  rw [shifted_eq, String.toList_append]
  exact List.isPrefixOf_iff_prefix.mpr (List.prefix_append _ _)

theorem replaceAll_label_eq_iff {s : String} {n m k : Nat} :
    replaceAll s (label n) (label k) = replaceAll s (label m) (label k) ↔ n = m
        ∨ ((n = k ∨ contains s (label n) = false) ∧ (m = k ∨ contains s (label m) = false)) := by
  unfold replaceAll contains
  rw [String.ofList_inj, replaceChars_eq_iff (marked_label n) (marked_label m) (marked_label k)]
  simp only [String.toList_inj, label_inj]

end SheetIntake.Schema.ItemError
