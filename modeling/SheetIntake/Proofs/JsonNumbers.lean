import Mathlib.Data.List.Basic
import SheetIntake.Json.Reader
import SheetIntake.Json.Writer
import SheetIntake.Proofs.ShortestDecimals

/-!
# Numbers in JSON

A number is read back from its written form: a whole number from its digits, a floating point number
from its shortest decimal, which always has a point or an exponent and so is not taken for a whole
number.

* `readNumber_int` — whole numbers.
* `readNumber_render` — decimals, however they are laid out.
-/

namespace SheetIntake.Json

open Decimal

/-! ## Digits -/

theorem digitsValue_append (cs ds : List Char) :
    digitsValue (cs ++ ds) = digitsValue cs * 10 ^ ds.length + digitsValue ds := by
  unfold digitsValue
  rw [List.foldl_append]
  generalize cs.foldl (fun n c => 10 * n + (c.toNat - 48)) 0 = m
  induction ds generalizing m with
  | nil => simp
  | cons d ds ih =>
    rw [List.foldl_cons, List.foldl_cons, ih, ih (10 * 0 + (d.toNat - 48)), List.length_cons, pow_succ]
    ring

theorem digitsValue_toDigits (n : Nat) : digitsValue (Nat.toDigits 10 n) = n :=
  Nat.ofDigitChars_ten_toDigits

theorem digitsValue_zeros (k : Nat) : digitsValue (List.replicate k '0') = 0 := by
  induction k with
  | zero => rfl
  | succ k ih => rw [List.replicate_succ', digitsValue_append, ih]; rfl

theorem isDigit_toDigits {n : Nat} : ∀ c ∈ Nat.toDigits 10 n, c.isDigit :=
  fun _ hc => Nat.isDigit_of_mem_toDigits (by decide) (by decide) hc

theorem isDigit_zeros {k : Nat} : ∀ c ∈ List.replicate k '0', c.isDigit := by
  intro c hc
  rw [List.eq_of_mem_replicate hc]
  rfl

theorem head_toDigits {n : Nat} (hn : n ≠ 0) : (Nat.toDigits 10 n).head? ≠ some '0' := by
  induction n using Nat.strongRecOn with
  | ind n ih =>
    by_cases hlt : n < 10
    · rw [Nat.toDigits_of_lt_base hlt]
      have hall : ∀ k < 10, k ≠ 0 → k.digitChar ≠ '0' := by decide
      simpa using hall n hlt hn
    · have hne := ih (n / 10) (by omega) (by omega)
      rw [Nat.toDigits_of_base_le (by decide) (by omega), List.head?_append]
      cases hhead : (Nat.toDigits 10 (n / 10)).head? with
      | none => exact absurd (List.head?_eq_none_iff.mp hhead) (Nat.toDigits_ne_nil)
      | some c => rwa [hhead] at hne

theorem toDigits_of_head {n : Nat} (h : (Nat.toDigits 10 n).head? = some '0') :
    Nat.toDigits 10 n = ['0'] := by
  by_cases hn : n = 0
  · rw [hn, Nat.toDigits_zero]
  · exact absurd h (head_toDigits hn)

/-- What can follow a number without being taken for a part of it. -/
def NumberEnd (rest : List Char) : Prop :=
  ∀ c ∈ rest.head?, c.isDigit = false ∧ c ≠ '.' ∧ c ≠ 'e' ∧ c ≠ 'E'

variable {ds rest : List Char}

theorem takeWhile_digits (hds : ∀ c ∈ ds, c.isDigit)
    (hrest : ∀ c ∈ rest.head?, c.isDigit = false) : (ds ++ rest).takeWhile Char.isDigit = ds := by
  rw [List.takeWhile_append_of_pos hds]
  cases rest with
  | nil => simp
  | cons c rest =>
    have hc := hrest c rfl
    rw [List.takeWhile_cons_of_neg (by simp [hc]), List.append_nil]

theorem NumberEnd.fractionDigits (h : NumberEnd rest) : fractionDigits rest = [] := by
  cases rest with
  | nil => rfl
  | cons c rest =>
    have hc := (h c rfl).2.1
    unfold Json.fractionDigits
    split
    · next heq => exact absurd (List.cons.inj heq).1 hc
    · rfl

theorem NumberEnd.exponentPart (h : NumberEnd rest) : exponentPart rest = none := by
  cases rest with
  | nil => rfl
  | cons c rest =>
    obtain ⟨-, -, he, hE⟩ := h c rfl
    unfold Json.exponentPart
    dsimp only
    rw [if_neg (by simp [he, hE])]

theorem wholeDigits_of_head {cs : List Char} (h : cs.head? ≠ some '0') :
    wholeDigits cs = cs.takeWhile Char.isDigit := by
  unfold wholeDigits
  split
  · exact absurd rfl h
  · rfl

theorem wholeDigits_append (hds : ∀ c ∈ ds, c.isDigit) (hne : ds ≠ [])
    (hzero : ds.head? = some '0' → ds = ['0']) (hrest : ∀ c ∈ rest.head?, c.isDigit = false) :
    wholeDigits (ds ++ rest) = ds := by
  by_cases hhead : ds.head? = some '0'
  · rw [hzero hhead]
    rfl
  · rw [wholeDigits_of_head (by rwa [List.head?_append_of_ne_nil _ hne]),
      takeWhile_digits hds hrest]

/-! ## Numbers by their parts -/

/-- Characters after a minus, if there is to be one. -/
def signed (negative : Bool) (cs : List Char) : List Char :=
  if negative then '-' :: cs else cs

theorem readNumber_signed (negative : Bool) (position : Nat) {start : List Char}
    (hdash : start.head? ≠ some '-') :
    readNumber ⟨position, signed negative start⟩ = readUnsigned negative position start := by
  cases negative with
  | true => rfl
  | false =>
    unfold readNumber
    split
    · next rest heq =>
      have hstart : start = '-' :: rest := heq
      rw [hstart] at hdash
      exact absurd rfl hdash
    · rfl

section

variable {negative : Bool} {position : Nat} {whole tail fraction after : List Char} {exponent : Int}
  {size : Nat} (hwhole : wholeDigits (whole ++ tail) = whole) (hne : whole ≠ [])

include hwhole hne

theorem readUnsigned_whole (hfraction : fractionDigits tail = []) (hexponent : exponentPart tail = none) :
    ∃ next, readUnsigned negative position (whole ++ tail) =
      .ok (.int (if negative then -(digitsValue whole : Int) else digitsValue whole),
        ⟨next, tail⟩) := by
  unfold readUnsigned
  dsimp only
  rw [hwhole, if_neg (by simpa using hne), List.drop_left, hfraction]
  simp only [List.isEmpty_nil, if_true, List.drop_zero, hexponent]
  exact ⟨_, rfl⟩

theorem readUnsigned_fraction (hfraction : fractionDigits tail = fraction) (hfne : fraction ≠ [])
    (hafter : tail.drop (fraction.length + 1) = after) (hexponent : exponentPart after = none) :
    ∃ next, readUnsigned negative position (whole ++ tail) =
      .ok (.float (Binary64.ofDecimal negative (digitsValue (whole ++ fraction))
        (-(fraction.length : Int))), ⟨next, after⟩) := by
  have hempty : ¬ fraction.isEmpty := by simpa using hfne
  unfold readUnsigned
  dsimp only
  rw [hwhole, if_neg (by simpa using hne), List.drop_left, hfraction, if_neg hempty, hafter,
    hexponent]
  rw [if_neg hempty]
  exact ⟨_, rfl⟩

theorem readUnsigned_exponent (hfraction : fractionDigits tail = fraction)
    (hafter : tail.drop (if fraction.isEmpty then 0 else fraction.length + 1) = after)
    (hexponent : exponentPart after = some (exponent, size)) :
    ∃ next, readUnsigned negative position (whole ++ tail) =
      .ok (.float (Binary64.ofDecimal negative (digitsValue (whole ++ fraction))
        (exponent - fraction.length)), ⟨next, after.drop size⟩) := by
  unfold readUnsigned
  dsimp only
  rw [hwhole, if_neg (by simpa using hne), List.drop_left, hfraction, hafter, hexponent]
  exact ⟨_, rfl⟩

end

theorem head_ne_dash (hds : ∀ c ∈ ds, c.isDigit) (hne : ds ≠ []) :
    (ds ++ rest).head? ≠ some '-' := by
  rw [List.head?_append_of_ne_nil _ hne]
  intro h
  cases hds '-' (List.mem_of_mem_head? h)

/-! ## Whole numbers -/

theorem toList_toString_int (n : Int) :
    (toString n).toList = signed (decide (n < 0)) (Nat.toDigits 10 n.natAbs) := by
  cases n with
  | ofNat k | negSucc k => simp [signed, toString, Int.repr, Nat.repr]

theorem signed_natAbs (n : Int) : (if decide (n < 0) then -(n.natAbs : Int) else n.natAbs) = n := by
  simp only [decide_eq_true_eq]
  split <;> omega

theorem readNumber_int (n : Int) (position : Nat) (hrest : NumberEnd rest) :
    ∃ next, readNumber ⟨position, (toString n).toList ++ rest⟩ = .ok (.int n, ⟨next, rest⟩) := by
  have hds : ∀ c ∈ Nat.toDigits 10 n.natAbs, c.isDigit := isDigit_toDigits
  have hsplit : (toString n).toList ++ rest =
      signed (decide (n < 0)) (Nat.toDigits 10 n.natAbs ++ rest) := by
    rw [toList_toString_int]
    unfold signed
    split <;> rfl
  obtain ⟨next, hread⟩ := @readUnsigned_whole (decide (n < 0)) position _ rest
    (wholeDigits_append isDigit_toDigits Nat.toDigits_ne_nil toDigits_of_head fun c hc =>
      (hrest c hc).1) Nat.toDigits_ne_nil
    hrest.fractionDigits hrest.exponentPart
  refine ⟨next, ?_⟩
  rw [hsplit, readNumber_signed _ _ (head_ne_dash hds Nat.toDigits_ne_nil), hread,
    digitsValue_toDigits]
  rw [signed_natAbs]

/-! ## Whole numbers in other texts -/

variable {c : Char}

theorem isDigit_or_dash_of_mem_toString {n : Int} (h : c ∈ (toString n).toList) :
    c = '-' ∨ c.isDigit := by
  rw [toList_toString_int] at h
  unfold signed at h
  split at h
  · rcases List.mem_cons.mp h with h | h
    · exact .inl h
    · exact .inr (isDigit_toDigits c h)
  · exact .inr (isDigit_toDigits c h)

theorem plain_of_isDigit_or_dash (h : c = '-' ∨ c.isDigit) :
    isMargin c = false ∧ plainDigit c = c ∧ c ≠ '_' := by
  have hchars : ∀ k < 10, isMargin (Char.ofNat (48 + k)) = false
      ∧ plainDigit (Char.ofNat (48 + k)) = Char.ofNat (48 + k) ∧ Char.ofNat (48 + k) ≠ '_' := by
    decide
  rcases h with rfl | h
  · decide
  · have hbounds : 48 ≤ c.toNat ∧ c.toNat ≤ 57 := Char.isDigit_iff_toNat.mp h
    have hc := hchars (c.toNat - 48) (by omega)
    have hcode : 48 + (c.toNat - 48) = c.toNat := by omega
    rwa [hcode, Char.ofNat_toNat] at hc

theorem numberChars_eq {s : String} (h : ∀ c ∈ s.toList, isMargin c = false ∧ plainDigit c = c) :
    numberChars s = s.toList := by
  have hdrop : ∀ cs : List Char, (∀ c ∈ cs, isMargin c = false) → cs.dropWhile isMargin = cs := by
    intro cs hcs
    cases cs with
    | nil => rfl
    | cons c rest => exact List.dropWhile_cons_of_neg (by simp [hcs c])
  have hmargin : ∀ c ∈ s.toList, isMargin c = false := fun c hc => (h c hc).1
  unfold numberChars
  dsimp only
  rw [hdrop _ hmargin, hdrop _ fun c hc => hmargin c (List.mem_reverse.mp hc), List.reverse_reverse]
  exact (List.map_congr_left (g := id) fun c hc => (h c hc).2).trans (List.map_id _)

theorem joinDigits_eq {afterDigit : Bool} {cs : List Char} (h : ∀ c ∈ cs, c ≠ '_') :
    joinDigits afterDigit cs = some cs := by
  induction cs generalizing afterDigit with
  | nil => rfl
  | cons c rest ih =>
    have hc := h c (.head _)
    unfold joinDigits
    split
    · next heq => cases heq
    · next heq => exact absurd (List.cons.inj heq).1 hc
    · next heq => exact absurd (List.cons.inj heq).1 hc
    · next heq =>
      obtain ⟨rfl, rfl⟩ := List.cons.inj heq
      rw [ih fun d hd => h d (.tail _ hd)]
      rfl

theorem splitSign_signed (negative : Bool) (hds : ∀ c ∈ ds, c.isDigit) :
    splitSign (signed negative ds) = (negative, ds) := by
  cases negative with
  | true => rfl
  | false =>
    show splitSign ds = (false, ds)
    unfold splitSign
    split
    · cases hds '-' (.head _)
    · cases hds '+' (.head _)
    · rfl

theorem readInt?_toString (n : Int) : readInt? (toString n) = some n := by
  have hplain : ∀ c ∈ (toString n).toList, isMargin c = false ∧ plainDigit c = c ∧ c ≠ '_' :=
    fun c hc => plain_of_isDigit_or_dash (isDigit_or_dash_of_mem_toString hc)
  have hdigits : ∀ c ∈ Nat.toDigits 10 n.natAbs, c.isDigit := isDigit_toDigits
  have honly : onlyDigits (Nat.toDigits 10 n.natAbs) := by
    rw [onlyDigits, List.all_eq_true.mpr hdigits, Bool.and_true, Bool.not_eq_true',
      List.isEmpty_eq_false_iff]
    exact Nat.toDigits_ne_nil
  unfold readInt?
  rw [numberChars_eq fun c hc => ⟨(hplain c hc).1, (hplain c hc).2.1⟩,
    joinDigits_eq fun c hc => (hplain c hc).2.2, toList_toString_int]
  dsimp only
  rw [splitSign_signed _ hdigits, if_pos honly, digitsValue_toDigits, signed_natAbs]

/-! ## Decimals -/

theorem exponentPart_signed (minus : Bool) (hds : ∀ c ∈ ds, c.isDigit) (hne : ds ≠ [])
    (hrest : ∀ c ∈ rest.head?, c.isDigit = false) :
    exponentPart ('e' :: (if minus then '-' else '+') :: (ds ++ rest)) =
      some (if minus then -(digitsValue ds : Int) else digitsValue ds, 2 + ds.length) := by
  unfold exponentPart
  cases minus <;>
    simp [splitSign, takeWhile_digits hds hrest, hne]

theorem padded_digits (width n : Nat) : (∀ c ∈ padded width n, c.isDigit) ∧ padded width n ≠ []
      ∧ digitsValue (padded width n) = n := by
  unfold padded
  refine ⟨List.forall_mem_append.mpr ⟨isDigit_zeros, isDigit_toDigits⟩, ?_, ?_⟩
  · exact List.append_ne_nil_of_right_ne_nil _ Nat.toDigits_ne_nil
  · rw [digitsValue_append, digitsValue_zeros, digitsValue_toDigits, Nat.zero_mul, Nat.zero_add]

section

variable {negative : Bool} {position : Nat} {d : Decimal}

theorem isDigit_digitChars : ∀ c ∈ d.digitChars, c.isDigit := isDigit_toDigits

theorem digitChars_ne_nil : d.digitChars ≠ [] := Nat.toDigits_ne_nil

theorem digitsValue_digitChars : digitsValue d.digitChars = d.digits := digitsValue_toDigits d.digits

/-- What is printed for a decimal: digits around a point, or one digit, perhaps with a point and more
behind it, and an exponent. -/
inductive Printed (d : Decimal) : List Char → Prop where
  | pointed {whole fraction : List Char} (hwhole : whole ≠ [] ∧ ∀ c ∈ whole, c.isDigit = true)
      (hzero : whole.head? = some '0' → whole = ['0'])
      (hfraction : fraction ≠ [] ∧ ∀ c ∈ fraction, c.isDigit = true)
      (hvalue : ∀ negative, d.toBinary64 negative = Binary64.ofDecimal negative
        (digitsValue (whole ++ fraction)) (-(fraction.length : Int))) :
      Printed d (whole ++ '.' :: fraction)
  | scaled {c : Char} {point fraction ds : List Char} (minus : Bool) (hc : c.isDigit = true)
      (hzero : c ≠ '0')
      (hpoint : point = [] ∧ fraction = []
        ∨ point = '.' :: fraction ∧ fraction ≠ [] ∧ ∀ c ∈ fraction, c.isDigit = true)
      (hds : ds ≠ [] ∧ ∀ c ∈ ds, c.isDigit = true)
      (hvalue : ∀ negative, d.toBinary64 negative = Binary64.ofDecimal negative
        (digitsValue (c :: fraction))
        ((if minus then -(digitsValue ds : Int) else digitsValue ds) - fraction.length)) :
      Printed d (c :: (point ++ 'e' :: (if minus then '-' else '+') :: ds))

theorem printed_plain_whole (hpower : 0 ≤ d.power) : Printed d (plain .text d) := by
  -- the zero behind the point stands for one digit more
  have hvalue (negative : Bool) : d.toBinary64 negative =
      Binary64.ofDecimal negative (d.digits * 10 ^ (d.power.toNat + 1)) (-1) := by
    have hstep := Binary64.ofDecimal_mul_pow negative d.digits d.power (d.power.toNat + 1)
    rw [show d.power - ((d.power.toNat + 1 : Nat) : Int) = -1 by omega] at hstep
    exact hstep.symm
  have hzeros : ['0'] ≠ [] ∧ ∀ c ∈ ['0'], c.isDigit := ⟨by simp, @isDigit_zeros 1⟩
  unfold plain
  rw [if_pos hpower, if_pos (show NumberLayout.text.keepsPoint = true from rfl)]
  split
  · next hd =>
    refine .pointed ⟨digitChars_ne_nil, isDigit_digitChars⟩ toDigits_of_head hzeros fun negative => ?_
    rw [hvalue, digitsValue_append, digitsValue_digitChars, hd, Nat.zero_mul, Nat.zero_mul]
    rfl
  · next hd =>
    refine .pointed ⟨List.append_ne_nil_of_left_ne_nil digitChars_ne_nil _,
      List.forall_mem_append.mpr ⟨isDigit_digitChars, isDigit_zeros⟩⟩ (fun hhead => ?_) hzeros
      fun negative => ?_
    · rw [List.head?_append_of_ne_nil _ digitChars_ne_nil] at hhead
      exact absurd hhead (head_toDigits hd)
    · rw [hvalue, digitsValue_append, digitsValue_append, digitsValue_zeros, List.length_replicate,
        digitsValue_digitChars, pow_succ, ← Nat.mul_assoc]
      rfl

theorem printed_plain_fraction (hpower : d.power < 0) : Printed d (plain .text d) := by
  have hplace : -((-d.power).toNat : Int) = d.power := by omega
  unfold plain
  dsimp only
  rw [if_neg (by omega)]
  split
  · next hplaces =>
    -- the point stands between two digits
    generalize hk : d.digitChars.length - (-d.power).toNat = k
    have hlength : (d.digitChars.drop k).length = (-d.power).toNat := by
      rw [List.length_drop]
      omega
    refine .pointed ⟨?_, fun c hc => isDigit_digitChars c (List.mem_of_mem_take hc)⟩
      (fun hhead => ?_) ⟨?_, fun c hc => isDigit_digitChars c (List.mem_of_mem_drop hc)⟩
      fun negative => ?_
    · rw [← List.length_pos_iff, List.length_take]
      omega
    · rw [List.head?_take, if_neg (by omega)] at hhead
      have hone : d.digitChars.length = 1 := congrArg List.length (toDigits_of_head hhead)
      omega
    · rw [← List.length_pos_iff, hlength]
      omega
    · rw [List.take_append_drop, hlength, digitsValue_digitChars, hplace]
      rfl
  · -- all digits stand after the point, behind zeros
    have hlength : (List.replicate ((-d.power).toNat - d.digitChars.length) '0' ++
        d.digitChars).length = (-d.power).toNat := by
      rw [List.length_append, List.length_replicate]
      omega
    refine @Printed.pointed d ['0'] _ ⟨by simp, @isDigit_zeros 1⟩ (fun _ => rfl)
      ⟨List.append_ne_nil_of_right_ne_nil _ digitChars_ne_nil,
        List.forall_mem_append.mpr ⟨isDigit_zeros, isDigit_digitChars⟩⟩ fun negative => ?_
    rw [digitsValue_append, digitsValue_append, digitsValue_zeros, hlength, digitsValue_digitChars,
      show digitsValue ['0'] = 0 from rfl, Nat.zero_mul, Nat.zero_mul, Nat.zero_add, Nat.zero_add,
      hplace]
    rfl

theorem printed_scientific (hd : d.digits ≠ 0) : Printed d (scientific .text d) := by
  obtain ⟨hpadded, hpne, hpvalue⟩ :=
    padded_digits NumberLayout.text.exponentWidth d.leadingPlace.natAbs
  obtain ⟨minus, hsign, hplace⟩ : ∃ minus : Bool,
      (if d.leadingPlace < 0 then '-' else '+') = (if minus then '-' else '+')
        ∧ (if minus then -(d.leadingPlace.natAbs : Int) else d.leadingPlace.natAbs) =
          d.leadingPlace := by
    refine ⟨decide (d.leadingPlace < 0), by simp, ?_⟩
    simp only [decide_eq_true_eq]
    split <;> omega
  have hleading : d.leadingPlace = d.power + d.digitChars.length - 1 := if_neg hd
  have hdigits := @isDigit_digitChars d
  have hhead : d.digitChars.head? ≠ some '0' := head_toDigits hd
  have hdvalue := @digitsValue_digitChars d
  unfold scientific
  dsimp only
  rw [hsign]
  cases hcs : d.digitChars with
  | nil => exact absurd hcs digitChars_ne_nil
  | cons c cs =>
    rw [hcs] at hdigits hhead hdvalue hleading
    obtain ⟨hc, hrest⟩ := List.forall_mem_cons.mp hdigits
    have hzero : c ≠ '0' := by
      rintro rfl
      exact hhead rfl
    have hvalue (negative : Bool) : d.toBinary64 negative = Binary64.ofDecimal negative
        (digitsValue (c :: cs)) (d.leadingPlace - cs.length) := by
      rw [hdvalue, hleading, List.length_cons,
        show d.power + ((cs.length + 1 : Nat) : Int) - 1 - cs.length = d.power by omega]
      rfl
    rw [← hplace, ← hpvalue] at hvalue
    cases cs with
    | nil => exact .scaled minus hc hzero (.inl ⟨rfl, rfl⟩) ⟨hpne, hpadded⟩ hvalue
    | cons c' cs =>
      exact .scaled minus hc hzero (.inr ⟨rfl, List.cons_ne_nil c' cs, hrest⟩) ⟨hpne, hpadded⟩ hvalue

theorem printed_render (d : Decimal) : Printed d (render .text d) := by
  unfold render
  dsimp only
  split
  · by_cases hpower : 0 ≤ d.power
    · exact printed_plain_whole hpower
    · exact printed_plain_fraction (by omega)
  · next hplace =>
    refine printed_scientific fun hd => hplace ?_
    rw [leadingPlace, if_pos hd]
    decide

theorem readUnsigned_render (hrest : NumberEnd rest) :
    ∃ next, readUnsigned negative position (render .text d ++ rest) =
      .ok (.float (d.toBinary64 negative), ⟨next, rest⟩) := by
  have hprinted := printed_render d
  generalize render .text d = cs at hprinted ⊢
  have hdigits : ∀ c ∈ rest.head?, c.isDigit = false := fun c hc => (hrest c hc).1
  cases hprinted with
  | @pointed whole fraction hwhole hzero hfraction hvalue =>
    rw [List.append_assoc, hvalue]
    exact readUnsigned_fraction
      (wholeDigits_append hwhole.2 hwhole.1 hzero (by rintro c ⟨⟩; rfl)) hwhole.1
      (takeWhile_digits hfraction.2 hdigits) hfraction.1 (by simp) hrest.exponentPart
  | @scaled c point fraction ds minus hc hzero hpoint hds hvalue =>
    have hexponent := exponentPart_signed minus hds.2 hds.1 hdigits
    generalize (if minus then '-' else '+') = sign at hexponent ⊢
    have hafter : ('e' :: sign :: (ds ++ rest)).drop (2 + ds.length) = rest := by
      rw [Nat.add_comm, List.drop_succ_cons, List.drop_succ_cons, List.drop_left]
    have hone {tail : List Char} (htail : ∀ x ∈ tail.head?, x.isDigit = false) :
        wholeDigits ([c] ++ tail) = [c] :=
      wholeDigits_append (List.forall_mem_singleton.mpr hc) (by simp) (by simp [hzero]) htail
    rcases hpoint with ⟨rfl, rfl⟩ | ⟨rfl, hne, hfraction⟩
    · obtain ⟨next, hread⟩ := @readUnsigned_exponent negative position [c]
        ('e' :: sign :: (ds ++ rest)) [] ('e' :: sign :: (ds ++ rest)) _ _
        (hone (by rintro c ⟨⟩; rfl)) (by simp) rfl rfl hexponent
      rw [hafter] at hread
      exact ⟨next, hvalue negative ▸ hread⟩
    · obtain ⟨next, hread⟩ := @readUnsigned_exponent negative position [c]
        ('.' :: (fraction ++ 'e' :: sign :: (ds ++ rest))) fraction ('e' :: sign :: (ds ++ rest)) _ _
        (hone (by rintro c ⟨⟩; rfl)) (by simp) (takeWhile_digits hfraction (by rintro c ⟨⟩; rfl))
        (by simp [hne]) hexponent
      rw [hafter] at hread
      exact ⟨next, by simpa [hvalue negative] using hread⟩

theorem render_head (d : Decimal) : ∃ c cs, render .text d = c :: cs ∧ c.isDigit := by
  have hprinted := printed_render d
  generalize render .text d = cs at hprinted ⊢
  cases hprinted with
  | pointed hwhole =>
    obtain ⟨c, cs, rfl⟩ := List.exists_cons_of_ne_nil hwhole.1
    exact ⟨c, _, rfl, hwhole.2 c (.head _)⟩
  | scaled _ hc => exact ⟨_, _, rfl, hc⟩

theorem readNumber_render (hrest : NumberEnd rest) :
    ∃ next, readNumber ⟨position, signed negative (render .text d ++ rest)⟩ =
      .ok (.float (d.toBinary64 negative), ⟨next, rest⟩) := by
  obtain ⟨c, cs, hrender, hc⟩ := render_head d
  rw [readNumber_signed]
  · exact readUnsigned_render hrest
  · rw [hrender]
    rintro ⟨⟩
    cases hc

end

/-! ## Atoms -/

/-- No word of the format starts like a number. -/
theorem readAtom_signed (negative : Bool) (position : Nat) (hc : c.isDigit) (cs : List Char) :
    readAtom ⟨position, signed negative (c :: cs)⟩ =
      readNumber ⟨position, signed negative (c :: cs)⟩ := by
  have hne : ∀ x : Char, x.isDigit = false → (x == c) = false := by
    intro x hx
    rw [beq_eq_false_iff_ne]
    rintro rfl
    rw [hx] at hc
    exact Bool.false_ne_true hc
  have hnone : words.find? (fun w => w.1.toList.isPrefixOf (signed negative (c :: cs))) = none := by
    cases negative <;>
      simp [words, signed, List.isPrefixOf, hne]
  unfold readAtom
  rw [hnone]

end SheetIntake.Json
