import Mathlib.Computability.Language
import SheetIntake.Accounts.Contact

/-!
# Texts that a pattern spells

What a pattern matches from a place in a text is a language if it looks at nothing but the characters
it takes. A sequence of such patterns that ends with the end of the text accepts the words of the
product of their languages, and these words with a line feed after them.

* `Pattern.Spells.accepts` — a pattern that spells a language, before one that accepts another.
* `Contact.forms_accepted` — the texts that are taken for contact data.
-/

namespace SheetIntake

namespace Cursor

variable {text : List Char} {cs : List Cursor} {step : Cursor → List Cursor} {K L : Language Char}

/-- The cursors stand behind the words of a language at the start of a text. -/
def Behind (text : List Char) (L : Language Char) (cs : List Cursor) : Prop :=
  ∀ rest, rest ∈ cs.map after ↔ ∃ w ∈ L, text = w ++ rest

theorem behind_singleton (c : Cursor) : Behind c.after 1 [c] := by
  simp [Behind, Language.mem_one, eq_comm]

/-- Cursors in one text that are dropped have the rest of another one. -/
theorem Behind.distinct (h : Behind text L cs) : Behind text L (distinct cs) := by
  have hsuffix : ∀ c ∈ cs, c.after <:+ text := by
    intro c hc
    obtain ⟨w, -, htext⟩ := (h _).mp (List.mem_map_of_mem hc)
    exact ⟨w, htext.symm⟩
  -- the cursors that were seen stand in the text as well, where the length of a rest tells which it is
  have hfold : ∀ seen : List Cursor, (∀ c ∈ seen, c.after <:+ text) → ∀ rest,
      (rest ∈ (cs.foldl (fun seen c =>
        if seen.any (fun d => d.after.length = c.after.length) then seen else seen ++ [c]) seen).map after ↔
      rest ∈ (seen ++ cs).map after) := by
    clear h
    induction cs with
    | nil => simp
    | cons c cs ih =>
      intro seen hseen rest
      obtain ⟨hc, hcs⟩ := List.forall_mem_cons.mp hsuffix
      rw [List.foldl_cons]
      split
      · next hany =>
        obtain ⟨d, hd, hlength⟩ := List.any_eq_true.mp hany
        have hlength := of_decide_eq_true hlength
        have hsame : d.after = c.after :=
          (List.suffix_of_suffix_length_le (hseen d hd) hc hlength.le).eq_of_length hlength
        rw [ih hcs seen hseen]
        simp only [List.map_append, List.mem_append, List.map_cons, List.mem_cons]
        refine or_congr_right' fun hnot => (or_iff_right fun heq => hnot ?_).symm
        exact heq ▸ hsame ▸ List.mem_map_of_mem hd
      · rw [ih hcs _ (List.forall_mem_append.mpr ⟨hseen, List.forall_mem_singleton.mpr hc⟩),
          List.append_cons seen c cs]
  exact fun rest => (hfold [] (List.forall_mem_nil _) rest).trans (h rest)

theorem distinct_eq_nil : distinct cs = [] ↔ cs = [] := by
  cases cs with
  | nil => rfl
  | cons c cs =>
    refine iff_of_false ?_ (List.cons_ne_nil c cs)
    refine @List.foldlRecOn _ _ (· ≠ []) cs _ [c] (List.cons_ne_nil c []) fun seen hseen d _ => ?_
    split
    exacts [hseen, List.concat_ne_nil d seen]

section

variable (hstep : ∀ c, Behind c.after L (step c))
include hstep

theorem Behind.flatMap (h : Behind text K cs) :
    Behind text (K * L) (Cursor.distinct (cs.flatMap step)) := by
  refine Behind.distinct fun rest => ?_
  rw [List.map_flatMap, List.mem_flatMap]
  constructor
  · rintro ⟨c, hc, hrest⟩
    obtain ⟨u, hu, htext⟩ := (h _).mp (List.mem_map_of_mem hc)
    obtain ⟨v, hv, hafter⟩ := (hstep c rest).mp hrest
    exact ⟨u ++ v, Language.append_mem_mul hu hv, by rw [htext, hafter, List.append_assoc]⟩
  · rintro ⟨w, hw, htext⟩
    obtain ⟨u, hu, v, hv, rfl⟩ := Language.mem_mul.mp hw
    obtain ⟨c, hc, hafter⟩ := List.mem_map.mp
      ((h (v ++ rest)).mpr ⟨u, hu, htext.trans (List.append_assoc u v rest)⟩)
    exact ⟨c, hc, (hstep c rest).mpr ⟨v, hv, hafter⟩⟩

theorem Behind.exactly (h : Behind text K cs) (n : Nat) :
    Behind text (K * L ^ n) (Cursor.exactly step n cs) := by
  induction n generalizing cs K with
  | zero => rwa [Cursor.exactly, pow_zero, mul_one]
  | succ n ih =>
    have hnext := ih (h.flatMap hstep)
    rw [Cursor.exactly, pow_succ', ← mul_assoc]
    split
    · next hempty =>
      rw [List.isEmpty_iff.mp hempty] at hnext
      cases n <;> exact hnext
    · exact hnext

theorem Behind.upTo (h : Behind text K cs) (n : Nat) :
    Behind text {w | ∃ m ≤ n, w ∈ K * L ^ m} (Cursor.upTo step n cs) := by
  induction n generalizing cs K with
  | zero =>
    refine fun rest => (h rest).trans (?_ : _ ↔ ∃ w, (∃ m ≤ 0, w ∈ K * L ^ m) ∧ _)
    simp
  | succ n ih =>
    refine Behind.distinct fun rest => ?_
    rw [List.map_append, List.mem_append]
    refine (or_congr (h rest) (ih (h.flatMap hstep) rest)).trans ?_
    constructor
    · rintro (⟨w, hw, htext⟩ | ⟨w, ⟨m, hm, hw⟩, htext⟩)
      · exact ⟨w, ⟨0, Nat.zero_le _, by rwa [pow_zero, mul_one]⟩, htext⟩
      · exact ⟨w, ⟨m + 1, Nat.succ_le_succ hm, by rwa [pow_succ', ← mul_assoc]⟩, htext⟩
    · rintro ⟨w, ⟨_ | m, hm, hw⟩, htext⟩
      · exact .inl ⟨w, by rwa [pow_zero, mul_one] at hw, htext⟩
      · exact .inr ⟨w, ⟨m, Nat.le_of_succ_le_succ hm, by rwa [pow_succ', ← mul_assoc] at hw⟩, htext⟩

end

end Cursor

namespace Pattern

open Cursor

attribute [local simp] ends

variable {p q : Pattern} {set : CharSet} {w : List Char} {K L : Language Char}

/-- From every place the pattern matches exactly the words of the language that follow there. -/
def Spells (p : Pattern) (L : Language Char) : Prop :=
  ∀ c, Behind c.after L (p.ends c)

/-- The pattern matches at a place exactly where what follows is a word of the language. -/
def Accepts (p : Pattern) (L : Language Char) : Prop :=
  ∀ c, p.ends c ≠ [] ↔ c.after ∈ L

theorem ends_seq_ne_nil {c : Cursor} : (Pattern.seq p q).ends c ≠ [] ↔ ∃ d ∈ p.ends c, q.ends d ≠ [] := by
  rw [ends, Ne, distinct_eq_nil, List.flatMap_eq_nil_iff]
  push Not
  rfl

theorem Spells.accepts (hp : p.Spells K) (hq : q.Accepts L) : (Pattern.seq p q).Accepts (K * L) := by
  intro c
  rw [ends_seq_ne_nil, Language.mem_mul]
  constructor
  · rintro ⟨d, hd, hmatch⟩
    obtain ⟨w, hw, htext⟩ := (hp c _).mp (List.mem_map_of_mem hd)
    exact ⟨w, hw, _, (hq d).mp hmatch, htext.symm⟩
  · rintro ⟨w, hw, rest, hrest, htext⟩
    obtain ⟨d, hd, rfl⟩ := List.mem_map.mp ((hp c rest).mpr ⟨w, hw, htext.symm⟩)
    exact ⟨d, hd, (hq d).mpr hrest⟩

theorem accepts_finish : Pattern.finish.Accepts {[], ['\n']} := by
  intro c
  rw [ends]
  change _ ↔ c.after = [] ∨ c.after = ['\n']
  split <;> simp_all

/-- The words of one character of a set. -/
def letter (set : CharSet) : Language Char :=
  {w | ∃ x, set.has x ∧ w = [x]}

theorem mem_letter : w ∈ letter set ↔ ∃ x, set.has x ∧ w = [x] :=
  .rfl

theorem spells_one (set : CharSet) : (Pattern.one set).Spells (letter set) := by
  rintro ⟨before, _ | ⟨x, text⟩⟩ rest
  · simp [mem_letter]
  · rw [ends]
    dsimp only
    split <;> simp_all [mem_letter, @eq_comm _ rest]

theorem mem_letter_pow {n : Nat} :
    w ∈ letter set ^ n ↔ (∀ x ∈ w, set.has x) ∧ w.length = n := by
  induction n generalizing w with
  | zero => simp +contextual [Language.mem_one]
  | succ n ih =>
    rw [pow_succ', Language.mem_mul]
    constructor
    · rintro ⟨_, ⟨x, hx, rfl⟩, v, hv, rfl⟩
      obtain ⟨hall, hlength⟩ := ih.mp hv
      exact ⟨List.forall_mem_cons.mpr ⟨hx, hall⟩, congrArg Nat.succ hlength⟩
    · rintro ⟨hall, hlength⟩
      obtain ⟨x, v, rfl⟩ := List.exists_cons_of_length_eq_add_one hlength
      obtain ⟨hx, hall⟩ := List.forall_mem_cons.mp hall
      exact ⟨[x], ⟨x, hx, rfl⟩, v, ih.mpr ⟨hall, Nat.succ.inj hlength⟩, rfl⟩

/-- The words of characters of a set, at least so long and at most so long. -/
def words (set : CharSet) (least : Nat) (most : Option Nat) : Language Char :=
  {w | (∀ x ∈ w, set.has x) ∧ least ≤ w.length ∧ ∀ m ∈ most, w.length ≤ m}

theorem mem_words {least : Nat} {most : Option Nat} : w ∈ words set least most ↔
    (∀ x ∈ w, set.has x) ∧ least ≤ w.length ∧ ∀ m ∈ most, w.length ≤ m :=
  .rfl

theorem spells_times {least : Nat} {most : Option Nat} (h : ∀ m ∈ most, least ≤ m) :
    (Pattern.times (.one set) least most).Spells (words set least most) := by
  intro c rest
  obtain ⟨more, hends, hmore⟩ : ∃ more, (Pattern.times (.one set) least most).ends c =
      upTo (Pattern.one set).ends more (exactly (Pattern.one set).ends least [c])
      ∧ ∀ n, n ≤ more ↔ n ≤ c.after.length + 1 ∧ ∀ m ∈ most, n ≤ m - least := by
    cases most with
    | none => exact ⟨_, by rw [ends], by simp⟩
    | some m => exact ⟨_, by rw [ends], by simp [and_comm]⟩
  have hmem := ((behind_singleton c).exactly (spells_one set) least).upTo (spells_one set) more rest
  simp only [one_mul, ← pow_add] at hmem
  rw [hends, hmem]
  constructor
  · rintro ⟨w, ⟨n, hn, hw⟩, htext⟩
    obtain ⟨hall, hlength⟩ := mem_letter_pow.mp hw
    refine ⟨w, ⟨hall, by omega, fun m hm => ?_⟩, htext⟩
    have := h m hm
    have := ((hmore n).mp hn).2 m hm
    omega
  · rintro ⟨w, ⟨hall, hleast, hmost⟩, htext⟩
    have hroom : w.length ≤ c.after.length := by simp [htext]
    refine ⟨w, ⟨w.length - least, (hmore _).mpr ⟨by omega, fun m hm => ?_⟩, ?_⟩, htext⟩
    · exact Nat.sub_le_sub_right (hmost m hm) _
    · exact mem_letter_pow.mpr ⟨hall, by omega⟩

/-- A text is accepted up to its end if it is a word, or a word with a line feed after it. -/
theorem matchesStart_iff (h : p.Accepts (L * {[], ['\n']})) {form : List Char → Prop}
    (hform : ∀ cs, cs ∈ L ↔ form cs) (s : String) : (Pattern.seq .start p).matchesStart s ↔
      form s.toList ∨ ∃ t, form t ∧ s.toList = t ++ ['\n'] := by
  have hstart : (Pattern.seq .start p).matchesStart s ↔ p.ends ⟨[], s.toList⟩ ≠ [] := by
    rw [matchesStart, Bool.not_eq_true', List.isEmpty_eq_false_iff, ends_seq_ne_nil]
    simp
  rw [hstart, h, Language.mem_mul]
  simp only [← hform]
  constructor
  · rintro ⟨t, ht, rest, rfl | rfl, htext⟩
    · exact .inl (by rwa [← htext, List.append_nil])
    · exact .inr ⟨t, ht, htext.symm⟩
  · rintro (ht | ⟨t, ht, htext⟩)
    · exact ⟨_, ht, [], .inl rfl, List.append_nil _⟩
    · exact ⟨t, ht, _, .inr rfl, htext.symm⟩

end Pattern

namespace Contact

open Pattern

/-- The letters and digits of the basic alphabet. -/
def IsBasic (c : Char) : Prop :=
  ('a' ≤ c ∧ c ≤ 'z') ∨ ('A' ≤ c ∧ c ≤ 'Z') ∨ '0' ≤ c ∧ c ≤ '9'

/-- At least one character, all of them basic or in a list. -/
def Filled (further : List Char) (cs : List Char) : Prop :=
  cs ≠ [] ∧ ∀ c ∈ cs, IsBasic c ∨ c ∈ further

/-- A name, an at sign and a domain with a point in it. -/
def EmailForm (cs : List Char) : Prop :=
  ∃ name domain rest, cs = name ++ '@' :: (domain ++ '.' :: rest)
    ∧ Filled ['_', '.', '+', '-'] name ∧ Filled ['-'] domain ∧ Filled ['-', '.'] rest

/-- Decimal digits of any script, so many of them. -/
def Digits (n : Nat) (cs : List Char) : Prop :=
  cs.length = n ∧ ∀ c ∈ cs, Text.isDecimal c

/-- Nothing, or a hyphen or a blank. -/
def Gap (cs : List Char) : Prop :=
  cs.length ≤ 1 ∧ ∀ c ∈ cs, c = '-' ∨ Text.isBlank c

/-- Three groups of digits with at most one hyphen or blank between two of them. -/
def PhoneForm (cs : List Char) : Prop :=
  ∃ area gap exchange gap' line, cs = area ++ (gap ++ (exchange ++ (gap' ++ line)))
    ∧ Digits 3 area ∧ Gap gap ∧ Digits 3 exchange ∧ Gap gap' ∧ Digits 4 line

theorem has_basicSet {further : List Char} {c : Char} :
    (basicSet further).has c ↔ IsBasic c ∨ c ∈ further := by
  simp [CharSet.has, basicSet, CharItem.has, IsBasic, Char.le_def, UInt32.le_iff_toNat_le, or_assoc]

theorem mem_words_basicSet {further cs : List Char} :
    cs ∈ words (basicSet further) 1 none ↔ Filled further cs := by
  rw [mem_words, Filled, ← List.length_pos_iff, and_comm]
  simp [has_basicSet, Nat.succ_le_iff]

theorem mem_letter_literal {c : Char} {cs : List Char} :
    cs ∈ letter { items := [.one c] } ↔ cs = [c] := by
  simp [mem_letter, CharSet.has, CharItem.has]

theorem mem_words_digit {n : Nat} {cs : List Char} :
    cs ∈ words { items := [.digit false] } n (some n) ↔ Digits n cs := by
  rw [mem_words, Digits, and_comm, le_antisymm_iff (a := cs.length)]
  simp [CharSet.has, CharItem.has, and_comm]

theorem mem_words_divider {cs : List Char} :
    cs ∈ words { items := [.one '-', .blank false] } 0 (some 1) ↔ Gap cs := by
  simp [mem_words, Gap, CharSet.has, CharItem.has, and_comm]

theorem isEmail_iff (s : String) :
    isEmail s ↔ EmailForm s.toList ∨ ∃ t, EmailForm t ∧ s.toList = t ++ ['\n'] := by
  have hwords (further : List Char) :
      (atLeastOne (basicSet further)).Spells (words (basicSet further) 1 none) :=
    spells_times (by simp)
  have haccepts := (hwords ['_', '.', '+', '-']).accepts <| (spells_one ⟨false, [.one '@']⟩).accepts <|
    (hwords ['-']).accepts <| (spells_one ⟨false, [.one '.']⟩).accepts <|
    (hwords ['-', '.']).accepts accepts_finish
  simp only [← mul_assoc] at haccepts
  refine matchesStart_iff haccepts (fun cs => ?_) s
  simp only [mul_assoc, Language.mem_mul, mem_words_basicSet, mem_letter_literal]
  constructor
  · rintro ⟨name, hname, _, ⟨_, rfl, _, ⟨domain, hdomain, _, ⟨_, rfl, rest, hrest, rfl⟩, rfl⟩, rfl⟩, rfl⟩
    exact ⟨name, domain, rest, rfl, hname, hdomain, hrest⟩
  · rintro ⟨name, domain, rest, rfl, hname, hdomain, hrest⟩
    exact ⟨name, hname, _, ⟨_, rfl, _, ⟨domain, hdomain, _, ⟨_, rfl, rest, hrest, rfl⟩, rfl⟩, rfl⟩, rfl⟩

theorem isPhone_iff (s : String) :
    isPhone s ↔ PhoneForm s.toList ∨ ∃ t, PhoneForm t ∧ s.toList = t ++ ['\n'] := by
  have hdigits (n : Nat) : (digits n).Spells (words { items := [.digit false] } n (some n)) :=
    spells_times (by simp)
  have hdivider : divider.Spells (words { items := [.one '-', .blank false] } 0 (some 1)) :=
    spells_times (by simp)
  have haccepts := (hdigits 3).accepts <| hdivider.accepts <| (hdigits 3).accepts <|
    hdivider.accepts <| (hdigits 4).accepts accepts_finish
  simp only [← mul_assoc] at haccepts
  refine matchesStart_iff haccepts (fun cs => ?_) s
  simp only [mul_assoc, Language.mem_mul, mem_words_digit, mem_words_divider]
  constructor
  · rintro ⟨area, ha, _, ⟨gap, hg, _, ⟨exchange, he, _, ⟨gap', hg', line, hl, rfl⟩, rfl⟩, rfl⟩, rfl⟩
    exact ⟨area, gap, exchange, gap', line, rfl, ha, hg, he, hg', hl⟩
  · rintro ⟨area, gap, exchange, gap', line, rfl, ha, hg, he, hg', hl⟩
    exact ⟨area, ha, _, ⟨gap, hg, _, ⟨exchange, he, _, ⟨gap', hg', line, hl, rfl⟩, rfl⟩, rfl⟩, rfl⟩

/-- What ends a text with a line feed has it, unless there is nothing. -/
theorem line_feed_mem {t v : List Char} (h : v <:+ t ++ ['\n']) (hv : v ≠ []) : '\n' ∈ v := by
  obtain rfl | ⟨front, rfl, -⟩ := List.suffix_concat_iff.mp h
  · exact absurd rfl hv
  · exact List.mem_append_right _ (List.mem_singleton_self _)

theorem not_emailForm (t : List Char) : ¬ EmailForm (t ++ ['\n']) := by
  rintro ⟨name, domain, rest, h, -, -, hne, hrest⟩
  have hsuffix : rest <:+ t ++ ['\n'] := ⟨name ++ '@' :: (domain ++ ['.']), by simp [h]⟩
  have hbreak := hrest '\n' (line_feed_mem hsuffix hne)
  revert hbreak
  unfold IsBasic
  decide

theorem not_phoneForm (t : List Char) : ¬ PhoneForm (t ++ ['\n']) := by
  rintro ⟨area, gap, exchange, gap', line, h, -, -, -, -, hlength, hline⟩
  have hsuffix : line <:+ t ++ ['\n'] := ⟨area ++ (gap ++ (exchange ++ gap')), by simp [h]⟩
  have hbreak := hline '\n' (line_feed_mem hsuffix (List.ne_nil_of_length_eq_add_one hlength))
  revert hbreak
  decide

/-- The texts that are taken for contact data are those of the form, and those with a line feed
after it, which no text of the form has. -/
theorem forms_accepted (s : String) :
    (isEmail s ↔ EmailForm s.toList ∨ ∃ t, EmailForm t ∧ s.toList = t ++ ['\n'])
      ∧ (isPhone s ↔ PhoneForm s.toList ∨ ∃ t, PhoneForm t ∧ s.toList = t ++ ['\n'])
      ∧ ∀ t, ¬ EmailForm (t ++ ['\n']) ∧ ¬ PhoneForm (t ++ ['\n']) :=
  ⟨isEmail_iff s, isPhone_iff s, fun t => ⟨not_emailForm t, not_phoneForm t⟩⟩

theorem line_feed_accepted : (isEmail "a@b.c\n" ∧ ¬ EmailForm "a@b.c\n".toList)
    ∧ isPhone "555-123 4567\n" ∧ ¬ PhoneForm "555-123 4567\n".toList :=
  ⟨⟨rfl, not_emailForm "a@b.c".toList⟩, rfl, not_phoneForm "555-123 4567".toList⟩

end Contact

end SheetIntake
