import Mathlib.Data.Rat.Lemmas
import SheetIntake.Proofs.JsonRoundTrip
import SheetIntake.Value.Alike
import SheetIntake.Value.Number

/-!
# Values that say the same

A number can be written with or without a fraction of zero, and the members of an object in any
order. Values that differ in nothing else are akin. They are alike, but not all values that are
alike are akin: a truth value is akin to no number.

* `Akin.equal_congr` — akin values are equal to the same values.
-/

namespace SheetIntake

namespace Assoc

variable {α β : Type} [DecidableEq α] {key : α} {value : β} {entries : List (α × β)}

theorem get?_eq_some_iff (h : (keys entries).Nodup) :
    get? key entries = some value ↔ (key, value) ∈ entries := by
  refine ⟨mem_of_get?, fun hmem => ?_⟩
  induction entries with
  | nil => cases hmem
  | cons e rest ih =>
    obtain ⟨k, v⟩ := e
    obtain ⟨hnot, hrest⟩ := List.nodup_cons.mp h
    rw [get?]
    rcases List.mem_cons.mp hmem with heq | hmem
    · cases heq
      rw [if_pos rfl]
    · have hk : k ≠ key := by
        rintro rfl
        exact hnot (List.mem_map.mpr ⟨_, hmem, rfl⟩)
      rw [if_neg hk]
      exact ih hrest hmem

theorem isSome_get?_iff : (get? key entries).isSome ↔ key ∈ keys entries := by
  induction entries with
  | nil => simp [get?, keys]
  | cons e rest ih =>
    obtain ⟨k, v⟩ := e
    rw [get?]
    split
    · next hk => simp [keys, hk]
    · next hk => simpa [keys, Ne.symm hk] using ih

end Assoc

open Assoc

/-! ## Numbers -/

/-- What a number amounts to. -/
inductive Amount where
  | below
  | exactly (q : ℚ)
  | above

namespace Amount

def order : Amount → Amount → Ordering
  | .below, .below => .eq
  | .below, _ => .lt
  | _, .below => .gt
  | .above, .above => .eq
  | .above, _ => .gt
  | _, .above => .lt
  | .exactly p, .exactly q => compare p q

theorem order_eq_iff {a b : Amount} : a.order b = .eq ↔ a = b := by
  cases a <;> cases b <;> simp [order]

theorem swap_order (a b : Amount) : (a.order b).swap = b.order a := by
  cases a <;> cases b <;> simp [order, ← Std.OrientedOrd.eq_swap]

end Amount

namespace Binary64

/-- The exact value of a finite number. -/
def ratio (negative : Bool) (significand : Nat) (exponent : Int) : ℚ :=
  let m : ℚ := (magnitude significand exponent).1 / (magnitude significand exponent).2
  if negative then -m else m

theorem magnitude_pos (significand : Nat) (exponent : Int) :
    0 < (magnitude significand exponent).2 := by
  unfold magnitude
  split
  · exact Nat.two_pow_pos _
  · exact Nat.one_pos

theorem fraction?_finite (negative : Bool) {significand : Nat} {exponent : Int}
    (h : Canonical significand exponent) :
    ∃ num den, fraction? (.finite negative significand exponent h) = some (num, den) ∧ 0 < den
      ∧ (num / den : ℚ) = ratio negative significand exponent := by
  cases negative with
  | false =>
    refine ⟨(magnitude significand exponent).1, _, rfl, magnitude_pos _ _, ?_⟩
    rw [Int.cast_natCast]
    rfl
  | true =>
    refine ⟨-(magnitude significand exponent).1, _, rfl, magnitude_pos _ _, ?_⟩
    rw [Int.cast_neg, Int.cast_natCast, neg_div]
    rfl

theorem compareFractions_eq {a b : Int × Nat} (ha : 0 < a.2) (hb : 0 < b.2) :
    compareFractions a b = compare (a.1 / a.2 : ℚ) (b.1 / b.2) := by
  have ha' : (0 : ℚ) < a.2 := by exact_mod_cast ha
  have hb' : (0 : ℚ) < b.2 := by exact_mod_cast hb
  have hlt : a.1 * b.2 < b.1 * a.2 ↔ (a.1 / a.2 : ℚ) < b.1 / b.2 := by
    rw [div_lt_div_iff₀ ha' hb']
    exact_mod_cast Iff.rfl
  have hgt : b.1 * a.2 < a.1 * b.2 ↔ (b.1 / b.2 : ℚ) < a.1 / a.2 := by
    rw [div_lt_div_iff₀ hb' ha']
    exact_mod_cast Iff.rfl
  unfold compareFractions
  rcases lt_trichotomy (a.1 / a.2 : ℚ) (b.1 / b.2) with h | h | h
  · rw [compare_lt_iff_lt.mpr h, compare_lt_iff_lt.mpr (hlt.mpr h)]
  · rw [compare_eq_iff_eq.mpr h, compare_eq_iff_eq]
    exact le_antisymm (not_lt.mp fun hlt' => (hgt.mp hlt').ne' h)
      (not_lt.mp fun hlt' => (hlt.mp hlt').ne h)
  · rw [compare_gt_iff_gt.mpr h, compare_gt_iff_gt.mpr (hgt.mpr h)]

theorem isInteger_finite_iff {negative : Bool} {significand : Nat} {exponent : Int}
    (h : Canonical significand exponent) : isInteger (.finite negative significand exponent h) ↔
      ∃ n : ℤ, ratio negative significand exponent = n := by
  obtain ⟨num, den, hfraction, hden, hratio⟩ := fraction?_finite negative h
  have hden' : (den : ℚ) ≠ 0 := by exact_mod_cast hden.ne'
  unfold isInteger
  rw [hfraction, ← hratio]
  rw [decide_eq_true_iff, ← Int.dvd_iff_emod_eq_zero]
  constructor
  · rintro ⟨n, rfl⟩
    exact ⟨n, by push_cast; field_simp⟩
  · rintro ⟨n, hn⟩
    rw [div_eq_iff hden'] at hn
    exact ⟨n, by rw [Int.mul_comm]; exact_mod_cast hn⟩

/-- What a number amounts to; none where it is none. -/
def amount? : Binary64 → Option Amount
  | .finite negative m e _ => some (.exactly (ratio negative m e))
  | .infinite negative => some (if negative then .below else .above)
  | .nan => none

theorem compare?_eq (x y : Binary64) :
    compare? x y = Option.map₂ Amount.order x.amount? y.amount? := by
  cases x with
  | nan => rfl
  | infinite a =>
    cases y with
    | nan => rfl
    | infinite b => cases a <;> cases b <;> rfl
    | finite t n f k => cases a <;> rfl
  | finite s m e h =>
    cases y with
    | nan => rfl
    | infinite b => cases b <;> rfl
    | finite t n f k =>
      obtain ⟨num, den, hx, hden, hxratio⟩ := fraction?_finite s h
      obtain ⟨num', den', hy, hden', hyratio⟩ := fraction?_finite t k
      unfold compare?
      dsimp only
      rw [hx, hy]
      dsimp only
      rw [compareFractions_eq hden hden', hxratio, hyratio]
      rfl

theorem compareInt?_eq (x : Binary64) (n : Int) :
    compareInt? x n = x.amount?.map (fun a => a.order (.exactly n)) := by
  cases x with
  | nan => rfl
  | infinite a => cases a <;> rfl
  | finite s m e h =>
    obtain ⟨num, den, hx, hden, hratio⟩ := fraction?_finite s h
    unfold compareInt?
    dsimp only
    rw [hx, Option.map_some, compareFractions_eq hden Nat.one_pos, hratio]
    simp [amount?, Amount.order]

end Binary64

theorem forall₂_iff_getElem? {α β : Type} {r : α → β → Prop} {xs : List α} {ys : List β} :
    List.Forall₂ r xs ys ↔
      xs.length = ys.length ∧ ∀ (i : Nat) x y, xs[i]? = some x → ys[i]? = some y → r x y := by
  rw [List.forall₂_iff_get]
  refine and_congr_right fun _ => ⟨fun h i x y hx hy => ?_, fun h i hi hi' => ?_⟩
  · obtain ⟨hi, rfl⟩ := List.getElem?_eq_some_iff.mp hx
    obtain ⟨hi', rfl⟩ := List.getElem?_eq_some_iff.mp hy
    exact h i hi hi'
  · exact h i _ _ (List.getElem?_eq_getElem hi) (List.getElem?_eq_getElem hi')

namespace Value

/-- What a number amounts to; none where a value is no number. -/
def amount? : Value → Option Amount
  | .int n => some (.exactly n)
  | .float x => x.amount?
  | _ => none

theorem order?_eq (a b : Value) : order? a b = Option.map₂ Amount.order a.amount? b.amount? := by
  cases a with
  | int m =>
    cases b with
    | int n =>
      have hcompare : compare m n = compare (m : ℚ) n := by
        simpa [Binary64.compareFractions] using
          Binary64.compareFractions_eq (a := (m, 1)) (b := (n, 1)) Nat.one_pos Nat.one_pos
      exact congrArg some hcompare
    | float x =>
      rw [order?, Binary64.compareInt?_eq, Option.map_map]
      cases hx : x.amount? with
      | none => simp [amount?, hx]
      | some a => simp [amount?, hx, Amount.swap_order]
    | _ => rfl
  | float x =>
    cases b with
    | int n =>
      rw [order?, Binary64.compareInt?_eq]
      cases hx : x.amount? with
      | none | some a => simp [amount?, hx]
    | float y => exact Binary64.compare?_eq x y
    | _ => cases hx : x.amount? <;> simp [order?, amount?, hx]
  | _ => cases b <;> rfl

theorem sameNumber_eq (a b : Value) : sameNumber a b = (order? a b == some .eq) := by
  cases a with
  | int m =>
    cases b with
    | int n => simp [sameNumber, order?, Bool.beq_eq_decide_eq]
    | float x =>
      rw [sameNumber, order?]
      rcases x.compareInt? m with _ | _ | _ | _ <;> rfl
    | _ => rfl
  | float x => cases b <;> rfl
  | _ => cases b <;> rfl

variable {a : Value}

theorem sameNumber_iff {b : Value} :
    a.sameNumber b ↔ ∃ x, a.amount? = some x ∧ b.amount? = some x := by
  rw [sameNumber_eq, order?_eq, beq_iff_eq]
  cases a.amount? with
  | none => simp
  | some x => cases b.amount? <;> simp [Amount.order_eq_iff, @eq_comm _ x]

variable {x : Amount}

theorem truthy_iff {v : Value} (h : v.amount? = some x) : v.truthy ↔ x ≠ .exactly 0 := by
  cases v with
  | int n =>
    cases h
    simp [truthy]
  | float y =>
    cases y with
    | nan => cases h
    | infinite negative =>
      cases h
      cases negative <;> simp [truthy]
    | finite negative m e hcanonical =>
      cases h
      have hden : ((Binary64.magnitude m e).2 : ℚ) ≠ 0 := by
        exact_mod_cast (Binary64.magnitude_pos m e).ne'
      have hnum : (Binary64.magnitude m e).1 = 0 ↔ m = 0 := by
        unfold Binary64.magnitude
        split <;> simp
      cases negative <;> simp [truthy, Binary64.ratio, hden, hnum]
  | _ => cases h

inductive IsNumber : Value → Prop where
  | int (n : Int) : IsNumber (.int n)
  | float (x : Binary64) : IsNumber (.float x)

theorem isNumber_of_amount? {v : Value} (h : v.amount? = some x) : IsNumber v := by
  cases v with
  | int n => exact .int n
  | float y => exact .float y
  | _ => cases h

/-- Values of one kind, where numbers are one kind. Texts and truth values are the same. -/
inductive SameShape : Value → Value → Prop where
  | null : SameShape .null .null
  | bool (p : Bool) : SameShape (.bool p) (.bool p)
  | text (s : String) : SameShape (.str s) (.str s)
  | number {v w : Value} (hv : IsNumber v) (hw : IsNumber w) : SameShape v w
  | list (xs ys : List Value) : SameShape (.list xs) (.list ys)
  | object (xs ys : List (String × Value)) : SameShape (.object xs) (.object ys)

/-- Two numbers are integers or not, which makes four cases. -/
@[elab_as_elim, cases_eliminator]
theorem SameShape.casesNumbers {motive : (v w : Value) → SameShape v w → Prop}
    (null : motive _ _ .null) (bool : ∀ p, motive _ _ (.bool p)) (text : ∀ s, motive _ _ (.text s))
    (ints : ∀ m n, motive _ _ (.number (.int m) (.int n)))
    (intFloat : ∀ m y, motive _ _ (.number (.int m) (.float y)))
    (floatInt : ∀ x n, motive _ _ (.number (.float x) (.int n)))
    (floats : ∀ x y, motive _ _ (.number (.float x) (.float y)))
    (list : ∀ xs ys, motive _ _ (.list xs ys)) (object : ∀ xs ys, motive _ _ (.object xs ys))
    {v w : Value} (h : SameShape v w) : motive v w h := by
  cases h with
  | number hv hw =>
    obtain m | x := hv
    · obtain n | y := hw
      · exact ints m n
      · exact intFloat m y
    · obtain n | y := hw
      · exact floatInt x n
      · exact floats x y
  | null => exact null
  | bool p => exact bool p
  | text s => exact text s
  | list xs ys => exact list xs ys
  | object xs ys => exact object xs ys

/-! ## Akin values -/

/-- Values that differ in how numbers are written and in the order of members only. What is named as
a divisor is written in the same way, because division by an integer and by a floating point number
are two things. -/
inductive Akin : Value → Value → Prop where
  | same (v : Value) : Akin v v
  | number {v w : Value} (h : v.sameNumber w = true) : Akin v w
  | list {xs ys : List Value} (hlength : xs.length = ys.length)
      (hitems : ∀ (i : Nat) x y, xs[i]? = some x → ys[i]? = some y → Akin x y) :
      Akin (.list xs) (.list ys)
  | object {xs ys : List (String × Value)} (hxs : (keys xs).Nodup)
      (hys : (keys ys).Nodup)
      (hnames : ∀ name, (Assoc.get? name xs).isSome = (Assoc.get? name ys).isSome)
      (hmembers : ∀ name x y, Assoc.get? name xs = some x → Assoc.get? name ys = some y → Akin x y)
      (hdivisor : ∀ x y, Assoc.get? "multipleOf" xs = some x →
        Assoc.get? "multipleOf" ys = some y → x.amount?.isSome = true → x = y) :
      Akin (.object xs) (.object ys)

namespace Akin

variable {a b c d : Value}

theorem amount?_eq (h : Akin a b) : a.amount? = b.amount? := by
  cases h with
  | number h =>
    obtain ⟨x, ha, hb⟩ := sameNumber_iff.mp h
    rw [ha, hb]
  | _ => rfl

theorem symm (h : Akin a b) : Akin b a := by
  induction h with
  | same v => exact .same v
  | number h =>
    obtain ⟨x, ha, hb⟩ := sameNumber_iff.mp h
    exact .number (sameNumber_iff.mpr ⟨x, hb, ha⟩)
  | list hlength _ ih => exact .list hlength.symm fun i y x hy hx => ih i x y hx hy
  | object hxs hys hnames hmembers hdivisor ih =>
    refine .object hys hxs (fun name => (hnames name).symm)
      (fun name y x hy hx => ih name x y hx hy) fun y x hy hx hsome => (hdivisor x y hx hy ?_).symm
    rwa [(hmembers _ x y hx hy).amount?_eq]

theorem order?_eq (h : Akin a b) (h' : Akin c d) : order? a c = order? b d := by
  rw [Value.order?_eq, Value.order?_eq, h.amount?_eq, h'.amount?_eq]

theorem less_eq (h : Akin a b) (h' : Akin c d) : a.less c = b.less d := by
  unfold less
  rw [h.order?_eq h']

theorem lessOrEqual_eq (h : Akin a b) (h' : Akin c d) : a.lessOrEqual c = b.lessOrEqual d := by
  unfold lessOrEqual
  rw [h.order?_eq h']

theorem shape (h : Akin a b) : SameShape a b := by
  cases h with
  | same =>
    cases a with
    | null => exact .null
    | bool p => exact .bool p
    | int n => exact .number (.int n) (.int n)
    | float x => exact .number (.float x) (.float x)
    | str s => exact .text s
    | list xs => exact .list xs xs
    | object xs => exact .object xs xs
  | number h =>
    obtain ⟨x, ha, hb⟩ := sameNumber_iff.mp h
    exact .number (isNumber_of_amount? ha) (isNumber_of_amount? hb)
  | list => exact .list _ _
  | object => exact .object _ _

theorem list_iff {xs ys : List Value} : Akin (.list xs) (.list ys) ↔ List.Forall₂ Akin xs ys := by
  rw [forall₂_iff_getElem?]
  constructor
  · rintro (_ | h | ⟨hlength, hitems⟩)
    · exact ⟨rfl, fun i x y hx hy => Option.some.inj (hx.symm.trans hy) ▸ .same x⟩
    · cases h
    · exact ⟨hlength, hitems⟩
  · rintro ⟨hlength, hitems⟩
    exact .list hlength hitems

section

variable {xs ys : List (String × Value)} {name : String} (h : Akin (.object xs) (.object ys))

include h

theorem isSome_get? (name : String) :
    (Assoc.get? name xs).isSome = (Assoc.get? name ys).isSome := by
  cases h with
  | same => rfl
  | number h => cases h
  | object _ _ hnames => exact hnames name

theorem member {x y : Value}
    (hx : Assoc.get? name xs = some x) (hy : Assoc.get? name ys = some y) : Akin x y := by
  cases h with
  | same => exact Option.some.inj (hx.symm.trans hy) ▸ .same x
  | number h => cases h
  | object _ _ _ hmembers => exact hmembers name x y hx hy

theorem exists_mem {x : Value} (hx : (name, x) ∈ xs) :
    ∃ y, (name, y) ∈ ys ∧ Akin x y ∧ (name = "multipleOf" → x.amount?.isSome → x = y) := by
  cases h with
  | same => exact ⟨x, hx, .same x, fun _ _ => rfl⟩
  | number h => cases h
  | object hxs _ hnames hmembers hdivisor =>
    have hget := (get?_eq_some_iff hxs).mpr hx
    have hsome := hnames name
    rw [hget, Option.isSome_some] at hsome
    obtain ⟨y, hy⟩ := Option.isSome_iff_exists.mp hsome.symm
    refine ⟨y, mem_of_get? hy, hmembers name x y hget hy, ?_⟩
    rintro rfl hnumber
    exact hdivisor x y hget hy hnumber

theorem perm_keys : (keys xs).Perm (keys ys) := by
  cases h with
  | same => exact .refl _
  | number h => cases h
  | object hxs hys hnames =>
    refine (List.perm_ext_iff_of_nodup hxs hys).mpr fun name => ?_
    rw [← isSome_get?_iff, ← isSome_get?_iff, hnames]

theorem length_eq : xs.length = ys.length := by
  simpa [keys] using h.perm_keys.length_eq

end

theorem truthy_eq (h : Akin a b) : a.truthy = b.truthy := by
  cases h with
  | same => rfl
  | number h =>
    obtain ⟨x, ha, hb⟩ := sameNumber_iff.mp h
    rw [Bool.eq_iff_iff, truthy_iff ha, truthy_iff hb]
  | @list xs ys hlength _ => cases xs <;> cases ys <;> simp_all [truthy]
  | @object xs ys hxs hys hnames hmembers hdivisor =>
    have hlength := (Akin.object hxs hys hnames hmembers hdivisor).length_eq
    cases xs <;> cases ys <;> simp_all [truthy]

theorem eq_bool_iff (h : Akin a b) (p : Bool) : a = .bool p ↔ b = .bool p := by
  cases h.shape with
  | _ => simp

theorem eq_str_iff (h : Akin a b) (s : String) : a = .str s ↔ b = .str s := by
  cases h.shape with
  | _ => simp

end Akin

/-! ## Equality of akin values -/

theorem equalItems_iff {xs ys : List Value} :
    equalItems xs ys ↔ List.Forall₂ (fun x y => x.equal y) xs ys := by
  induction xs generalizing ys with
  | nil => cases ys <;> simp [equalItems]
  | cons x xs ih => cases ys <;> simp [equalItems, ih]

variable {xs ys : List (String × Value)}

theorem equalMembers_iff : equalMembers xs ys ↔
      ∀ m ∈ xs, ∃ y, Assoc.get? m.1 ys = some y ∧ m.2.equal y := by
  induction xs with
  | nil => simp [equalMembers]
  | cons m rest ih =>
    obtain ⟨name, x⟩ := m
    rw [equalMembers, Bool.and_eq_true, ih, List.forall_mem_cons]
    refine and_congr ?_ Iff.rfl
    cases Assoc.get? name ys <;> simp

theorem equal_of_number (h : a.amount? = some x) (v : Value) : a.equal v = a.sameNumber v := by
  obtain _ | _ := isNumber_of_amount? h <;> cases v <;> rfl

theorem equal_number (h : a.amount? = some x) (v : Value) : v.equal a = v.sameNumber a := by
  obtain _ | _ := isNumber_of_amount? h <;> cases v <;> rfl

namespace Akin

variable {a b c d : Value}

theorem exists_getElem? {α β : Type} {xs : List α} {ys : List β} (h : xs.length = ys.length)
    {i : Nat} {y : β} (hy : ys[i]? = some y) : ∃ x, xs[i]? = some x := by
  obtain ⟨hi, -⟩ := List.getElem?_eq_some_iff.mp hy
  exact ⟨_, List.getElem?_eq_getElem (h ▸ hi)⟩

theorem exists_get? {xs ys : List (String × Value)} {name : String} {y : Value}
    (h : ∀ name, (Assoc.get? name xs).isSome = (Assoc.get? name ys).isSome)
    (hy : Assoc.get? name ys = some y) : ∃ x, Assoc.get? name xs = some x :=
  Option.isSome_iff_exists.mp ((h name).trans (Option.isSome_iff_exists.mpr ⟨y, hy⟩))

/-- An akin value may take the place of either side. -/
theorem equal_of_equal (h : Akin a b) (v : Value) :
    (a.equal v → b.equal v) ∧ (v.equal a → v.equal b) := by
  induction h generalizing v with
  | same => exact ⟨id, id⟩
  | number h =>
    obtain ⟨x, ha, hb⟩ := sameNumber_iff.mp h
    rw [equal_of_number ha, equal_of_number hb, equal_number ha, equal_number hb, sameNumber_iff,
      sameNumber_iff, sameNumber_iff, sameNumber_iff, ha, hb]
    exact ⟨id, id⟩
  | @list xs ys hlength _ ih =>
    cases v with
    | list zs =>
      simp only [equal, equalItems_iff, forall₂_iff_getElem?]
      refine ⟨fun hv => ⟨hlength.symm.trans hv.1, fun i y z hy hz => ?_⟩,
        fun hv => ⟨hv.1.trans hlength, fun i z y hz hy => ?_⟩⟩
      · obtain ⟨x, hx⟩ := exists_getElem? hlength hy
        exact (ih i x y hx hy z).1 (hv.2 i x z hx hz)
      · obtain ⟨x, hx⟩ := exists_getElem? hlength hy
        exact (ih i x y hx hy z).2 (hv.2 i z x hz hx)
    | _ => exact ⟨id, id⟩
  | @object xs ys hxs hys hnames hmembers hdivisor ih =>
    have hlength := (Akin.object hxs hys hnames hmembers hdivisor).length_eq
    cases v with
    | object zs =>
      simp only [equal, Bool.and_eq_true, equalMembers_iff, hlength]
      refine ⟨fun hv => ⟨hv.1, fun m hm => ?_⟩, fun hv => ⟨hv.1, fun m hm => ?_⟩⟩
      · have hy := (get?_eq_some_iff hys).mpr hm
        obtain ⟨x, hx⟩ := exists_get? hnames hy
        obtain ⟨z, hz, hequal⟩ := hv.2 (m.1, x) (mem_of_get? hx)
        exact ⟨z, hz, (ih m.1 x m.2 hx hy z).1 hequal⟩
      · obtain ⟨x, hx, hequal⟩ := hv.2 m hm
        obtain ⟨y, hy⟩ := exists_get? (fun name => (hnames name).symm) hx
        exact ⟨y, hy, (ih m.1 x y hx hy m.2).2 hequal⟩
    | _ => exact ⟨id, id⟩

theorem equal_congr (h : Akin a b) (h' : Akin c d) : a.equal c = b.equal d := by
  rw [Bool.eq_iff_iff]
  exact ⟨fun hequal => (h'.equal_of_equal b).2 ((h.equal_of_equal c).1 hequal),
    fun hequal => (h'.symm.equal_of_equal a).2 ((h.symm.equal_of_equal d).1 hequal)⟩

end Akin

/-! ## Which values that are alike are akin -/

mutual

/-- Whether truth values stand in the place of truth values and a divisor in the place of the same
divisor. -/
def keepsKinds : Value → Value → Bool
  | .bool _, .bool _ => true
  | .bool _, _ => false
  | _, .bool _ => false
  | .list xs, .list ys => keepsKindsItems xs ys
  | .object xs, .object ys => keepsKindsMembers xs ys
  | _, _ => true

def keepsKindsItems : List Value → List Value → Bool
  | x :: xs, y :: ys => keepsKinds x y && keepsKindsItems xs ys
  | _, _ => true

def keepsKindsMembers : List (String × Value) → List (String × Value) → Bool
  | [], _ => true
  | (name, x) :: rest, other =>
    (match Assoc.get? name other with
      | some y => keepsKinds x y && (name ≠ "multipleOf" || x.amount?.isNone || x = y)
      | none => true) && keepsKindsMembers rest other

end

theorem alikeItems_iff {xs ys : List Value} :
    alikeItems xs ys ↔ List.Forall₂ (fun x y => x.alike y) xs ys := by
  induction xs generalizing ys with
  | nil => cases ys <;> simp [alikeItems]
  | cons x xs ih => cases ys <;> simp [alikeItems, ih]

theorem alikeMembers_iff : alikeMembers xs ys ↔
      ∀ m ∈ xs, ∃ y, Assoc.get? m.1 ys = some y ∧ m.2.alike y := by
  induction xs with
  | nil => simp [alikeMembers]
  | cons m rest ih =>
    obtain ⟨name, x⟩ := m
    rw [alikeMembers, Bool.and_eq_true, ih, List.forall_mem_cons]
    refine and_congr ?_ Iff.rfl
    cases Assoc.get? name ys <;> simp

theorem keepsKindsItems_iff {xs ys : List Value} : keepsKindsItems xs ys ↔
      ∀ (i : Nat) x y, xs[i]? = some x → ys[i]? = some y → x.keepsKinds y := by
  induction xs generalizing ys with
  | nil => simp [keepsKindsItems]
  | cons x xs ih =>
    cases ys with
    | nil => simp [keepsKindsItems]
    | cons y ys =>
      rw [keepsKindsItems, Bool.and_eq_true, ih]
      constructor
      · rintro ⟨hfirst, hrest⟩ (_ | i) x' y' hx hy
        · exact Option.some.inj hx ▸ Option.some.inj hy ▸ hfirst
        · exact hrest i x' y' hx hy
      · exact fun h => ⟨h 0 x y rfl rfl, fun i x' y' hx hy => h (i + 1) x' y' hx hy⟩

theorem keepsKindsMembers_iff : keepsKindsMembers xs ys ↔
      ∀ m ∈ xs, ∀ y, Assoc.get? m.1 ys = some y → m.2.keepsKinds y
        ∧ (m.1 = "multipleOf" → m.2.amount?.isSome → m.2 = y) := by
  induction xs with
  | nil => simp [keepsKindsMembers]
  | cons m rest ih =>
    obtain ⟨name, x⟩ := m
    rw [keepsKindsMembers, Bool.and_eq_true, ih, List.forall_mem_cons]
    refine and_congr ?_ Iff.rfl
    cases Assoc.get? name ys with
    | none => simp
    | some y =>
      cases x.amount? <;> by_cases hname : name = "multipleOf" <;> simp [hname]

theorem isSome_get?_eq (hxs : (keys xs).Nodup) (hlength : xs.length = ys.length)
    (hsub : keys xs ⊆ keys ys) (name : String) :
    (Assoc.get? name xs).isSome = (Assoc.get? name ys).isSome := by
  have hperm : (keys xs).Perm (keys ys) := by
    refine (List.subperm_of_subset hxs hsub).perm_of_length_le ?_
    simp [keys, hlength]
  rw [Bool.eq_iff_iff, isSome_get?_iff, isSome_get?_iff, hperm.mem_iff]

/-- Values that are alike are akin, unless a truth value stands in the place of a number or a
divisor is written in another way. -/
theorem akin_of_alike {b : Value} (h : a.alike b) (hkinds : a.keepsKinds b)
    (ha : a.distinct) (hb : b.distinct) : Akin a b := by
  induction a using treeInduction generalizing b with
  | null => cases b <;> simp_all [alike, keepsKinds, sameNumber, asNumber, Akin.same]
  | bool p =>
    cases b with
    | bool q =>
      have hpq : p = q := by revert h; cases p <;> cases q <;> decide
      exact hpq ▸ .same _
    | _ => cases hkinds
  | int _ | float _ =>
    cases b with
    | bool q => cases hkinds
    | int m | float y => exact .number h
    | _ => cases h
  | str s => cases b <;> simp_all [alike, keepsKinds, sameNumber, asNumber, Akin.same]
  | list xs ih =>
    cases b with
    | list ys =>
      rw [alike, alikeItems_iff, forall₂_iff_getElem?] at h
      rw [keepsKinds, keepsKindsItems_iff] at hkinds
      rw [distinct, distinctItems_iff] at ha hb
      refine .list h.1 fun i x y hx hy => ?_
      have hx' := List.mem_of_getElem? hx
      exact ih x hx' (h.2 i x y hx hy) (hkinds i x y hx hy) (ha x hx')
        (hb y (List.mem_of_getElem? hy))
    | bool q => cases hkinds
    | _ => cases h
  | object xs ih =>
    cases b with
    | object ys =>
      rw [alike, Bool.and_eq_true, beq_iff_eq, alikeMembers_iff] at h
      rw [keepsKinds, keepsKindsMembers_iff] at hkinds
      rw [distinct, Bool.and_eq_true, decide_eq_true_iff, distinctMembers_iff] at ha hb
      refine .object ha.1 hb.1 (isSome_get?_eq ha.1 h.1 fun name hname => ?_)
        (fun name x y hx hy => ?_) fun x y hx hy hsome => ?_
      · obtain ⟨m, hm, rfl⟩ := List.mem_map.mp hname
        obtain ⟨y, hy, -⟩ := h.2 m hm
        exact isSome_get?_iff.mp (Option.isSome_iff_exists.mpr ⟨y, hy⟩)
      · have hm := mem_of_get? hx
        obtain ⟨y', hy', halike⟩ := h.2 _ hm
        cases hy.symm.trans hy'
        exact ih _ hm halike (hkinds _ hm y hy).1 (ha.2 _ hm) (hb.2 _ (mem_of_get? hy))
      · exact (hkinds _ (mem_of_get? hx) y hy).2 rfl hsome
    | bool q => cases hkinds
    | _ => cases h

end Value

end SheetIntake
