import Mathlib.RingTheory.ZMod.UnitsCyclic
import SheetIntake.Ddl.LevelTable

/-!
# The level table loses nothing

The order in which levels are listed comes from a table of slots with open addressing. What matters
to the rest is that the table is a set: every level that was put in is listed, once, and nothing
else is.

## The argument

* **`mem_levelOrder`**, **`nodup_levelOrder`** — the invariant along all insertions.
-/

namespace SheetIntake

namespace LevelTable

/-! ## The sequence of slots -/

/-- The slot after slot `i` when no stirring bits are left. -/
def next (size i : Nat) : Nat := (i * 5 + 1) % size

/-- `4 i + 1` is multiplied by five in every step. -/
theorem four_mul_iterate_next (size i : Nat) (m : Nat) :
    4 * (next size)^[m] i + 1 ≡ 5 ^ m * (4 * i + 1) [MOD 4 * size] := by
  induction m with
  | zero => simpa using Nat.ModEq.refl (4 * i + 1)
  | succ m ih =>
    rw [Function.iterate_succ_apply']
    have hstep : 4 * next size ((next size)^[m] i) ≡ 4 * ((next size)^[m] i * 5 + 1)
        [MOD 4 * size] := (Nat.mod_modEq _ size).mul_left' 4
    calc 4 * next size ((next size)^[m] i) + 1
        ≡ 4 * ((next size)^[m] i * 5 + 1) + 1 [MOD 4 * size] := hstep.add_right 1
      _ = 5 * (4 * (next size)^[m] i + 1) := by ring
      _ ≡ 5 * (5 ^ m * (4 * i + 1)) [MOD 4 * size] := ih.mul_left 5
      _ = 5 ^ (m + 1) * (4 * i + 1) := by ring

variable {k m : Nat}

theorem modEq_of_five_pow_modEq {n : Nat} (h : 5 ^ m ≡ 5 ^ n [MOD 2 ^ (k + 2)]) :
    m ≡ n [MOD 2 ^ k] := by
  have hfive : orderOf (5 : ZMod (2 ^ (k + 2))) = 2 ^ k := ZMod.orderOf_five k
  have hfinite : IsOfFinOrder (5 : ZMod (2 ^ (k + 2))) := by
    rw [← orderOf_pos_iff, hfive]
    positivity
  have hpow : (5 : ZMod (2 ^ (k + 2))) ^ m = 5 ^ n := by
    have := (ZMod.natCast_eq_natCast_iff (5 ^ m) (5 ^ n) (2 ^ (k + 2))).mpr h
    exact_mod_cast this
  rw [hfinite.pow_eq_pow_iff_modEq, hfive] at hpow
  exact hpow

variable {i : Nat}

theorem iterate_next_injective {n : Nat} (hm : m < 2 ^ k) (hn : n < 2 ^ k)
    (h : (next (2 ^ k))^[m] i = (next (2 ^ k))^[n] i) : m = n := by
  have hfour : 4 * 2 ^ k = 2 ^ (k + 2) := by ring
  have hodd : Nat.gcd (2 ^ (k + 2)) (4 * i + 1) = 1 := by
    apply Nat.Coprime.pow_left
    rw [Nat.coprime_two_left, Nat.odd_iff]
    omega
  have hpow : 5 ^ m * (4 * i + 1) ≡ 5 ^ n * (4 * i + 1) [MOD 2 ^ (k + 2)] := by
    have hm := four_mul_iterate_next (2 ^ k) i m
    have hn := four_mul_iterate_next (2 ^ k) i n
    rw [hfour] at hm hn
    rw [h] at hm
    exact hm.symm.trans hn
  exact (modEq_of_five_pow_modEq (hpow.cancel_right_of_coprime hodd)).eq_of_lt_of_lt hm hn

variable {j : Nat}

theorem exists_iterate_eq (hi : i < 2 ^ k) (hj : j < 2 ^ k) :
    ∃ m < 2 ^ k, (next (2 ^ k))^[m] i = j := by
  have hlt (m : Nat) : (next (2 ^ k))^[m] i < 2 ^ k := by
    cases m with
    | zero => exact hi
    | succ m =>
      rw [Function.iterate_succ_apply']
      exact Nat.mod_lt _ (by positivity)
  let visit (m : Fin (2 ^ k)) : Fin (2 ^ k) := ⟨(next (2 ^ k))^[m.val] i, hlt m.val⟩
  have hinj : Function.Injective visit := fun m n h =>
    Fin.ext (iterate_next_injective m.isLt n.isLt (congrArg Fin.val h))
  -- an injective map of a finite set to itself reaches everything
  obtain ⟨m, hm⟩ := Finite.surjective_of_injective hinj ⟨j, hj⟩
  exact ⟨m.val, m.isLt, congrArg Fin.val hm⟩

/-! ## Searching a slot -/

variable {slots : List (Option Nat)} {level count : Nat}

attribute [local simp] scan seek

theorem slot_of_scan (h : scan slots level count i = some j) :
    slots[j]? = some none ∨ slots[j]? = some (some level) := by
  fun_induction scan slots level count i with
  | case1 => cases h
  | case2 count i hfree =>
    rw [← Option.some.inj h]
    exact .inl hfree
  | case3 count i hk =>
    rw [← Option.some.inj h]
    exact .inr hk
  | case4 count i k hk hne ih => exact ih h
  | case5 => cases h

variable {fuel stir : Nat}

theorem slot_of_seek (h : seek slots level fuel i stir = some j) :
    slots[j]? = some none ∨ slots[j]? = some (some level) := by
  fun_induction seek slots level fuel i stir with
  | case1 => cases h
  | case2 fuel i stir count j' hscan =>
    rw [← Option.some.inj h]
    exact slot_of_scan hscan
  | case3 fuel i stir count hscan stir' ih => exact ih h

theorem scan_of_free (level : Nat) (hcount : 0 < count) (h : slots[i]? = some none) :
    scan slots level count i = some i := by
  obtain ⟨count, rfl⟩ := Nat.exists_eq_succ_of_ne_zero hcount.ne'
  simp [h]

/-- A search without stirring bits ends, if its sequence meets a free slot. -/
theorem exists_seek_eq_of_iterate (level : Nat) (hm : (next slots.length)^[m] i = j)
    (hj : slots[j]? = some none) (hfuel : m < fuel) : ∃ r, seek slots level fuel i 0 = some r := by
  induction m generalizing fuel i with
  | zero =>
    obtain ⟨fuel, rfl⟩ := Nat.exists_eq_succ_of_ne_zero hfuel.ne_bot
    obtain rfl : i = j := hm
    exact ⟨i, by rw [seek, scan_of_free level (by split <;> omega) hj]⟩
  | succ m ih =>
    obtain ⟨fuel, rfl⟩ := Nat.exists_eq_succ_of_ne_zero (Nat.ne_zero_of_lt hfuel)
    rw [seek]
    split
    · next r _ => exact ⟨r, rfl⟩
    · exact ih hm (by omega)

/-- A search ends in a table that has a free slot: its stirring bits run out, and from then on every
slot is met. -/
theorem exists_seek_eq (hsize : slots.length = 2 ^ k) (hj : slots[j]? = some none) (level : Nat)
    (hi : i < slots.length) (hfuel : stir + slots.length ≤ fuel) :
    ∃ r, seek slots level fuel i stir = some r := by
  induction stir using Nat.strong_induction_on generalizing fuel i with
  | _ stir ih =>
    rcases Nat.eq_zero_or_pos stir with rfl | hpos
    · have hjlt : j < slots.length := (List.getElem?_eq_some_iff.mp hj).1
      obtain ⟨m, hmlt, hm⟩ := exists_iterate_eq (hsize ▸ hi) (hsize ▸ hjlt)
      rw [← hsize] at hmlt hm
      exact exists_seek_eq_of_iterate level hm hj (by omega)
    · obtain ⟨fuel, rfl⟩ := Nat.exists_eq_succ_of_ne_zero (n := fuel) (by omega)
      have hless : stir / 32 < stir := Nat.div_lt_self hpos (by omega)
      rw [seek]
      split
      · next r _ => exact ⟨r, rfl⟩
      · exact ih (stir / 32) hless (Nat.mod_lt _ (by omega)) (by omega)

/-! ## Searches after a slot is taken

A search passes over taken slots only. So taking a free slot changes no search that ends at a slot
which already holds the level, and the search that chose the slot now ends there as well. -/

variable {r : Nat}

theorem getElem?_set_of_ne {slot : Option (Option Nat)} (taken : Nat) (hr : slots[r]? = some none)
    (hi : slots[i]? = slot) (hslot : slot ≠ some none) : (slots.set r (some taken))[i]? = slot := by
  have hne : r ≠ i := by
    rintro rfl
    exact hslot (hi.symm.trans hr)
  rw [List.getElem?_set_ne hne, hi]

theorem scan_set_of_none (taken : Nat) (hr : slots[r]? = some none)
    (h : scan slots level count i = none) :
    scan (slots.set r (some taken)) level count i = none := by
  fun_induction scan slots level count i with
  | case1 => rfl
  | case2 | case3 => cases h
  | case4 count i k hk hne ih =>
    rw [scan, getElem?_set_of_ne taken hr hk (by simp)]
    simpa only [if_neg hne] using ih h
  | case5 count i hout =>
    rw [scan, getElem?_set_of_ne taken hr hout (by simp)]

/-- Neighbours that lead to a slot still lead there after that slot, or after another free slot, is
taken. -/
theorem scan_set_of_some {taken : Nat} (hr : slots[r]? = some none)
    (h : scan slots level count i = some j)
    (hj : slots[j]? = some (some level) ∨ (j = r ∧ taken = level)) :
    scan (slots.set r (some taken)) level count i = some j := by
  have hrlt : r < slots.length := (List.getElem?_eq_some_iff.mp hr).1
  fun_induction scan slots level count i with
  | case1 => cases h
  | case2 count i hfree =>
    cases h
    rcases hj with hj | ⟨rfl, rfl⟩
    · rw [hfree] at hj
      cases hj
    · simp [List.getElem?_set_self hrlt]
  | case3 count i hk =>
    cases h
    simp [getElem?_set_of_ne taken hr hk]
  | case4 count i k hk hne ih =>
    rw [scan, getElem?_set_of_ne taken hr hk (by simp)]
    simpa only [if_neg hne] using ih h
  | case5 => cases h

theorem seek_set {taken : Nat} (hr : slots[r]? = some none)
    (h : seek slots level fuel i stir = some j)
    (hj : slots[j]? = some (some level) ∨ (j = r ∧ taken = level)) :
    seek (slots.set r (some taken)) level fuel i stir = some j := by
  fun_induction seek slots level fuel i stir with
  | case1 => cases h
  | case2 fuel i stir count j' hscan =>
    cases h
    rw [seek]
    simp only [List.length_set, count] at hscan ⊢
    rw [scan_set_of_some hr hscan hj]
  | case3 fuel i stir count hscan stir' ih =>
    rw [seek]
    simp only [List.length_set, count] at hscan ⊢
    rw [scan_set_of_none taken hr hscan]
    simpa only [stir'] using ih h

/-! ## The invariant -/

variable {t : LevelTable}

theorem mem_toList : level ∈ t.toList ↔ ∃ j : Nat, t.slots[j]? = some (some level) := by
  rw [toList, List.mem_filterMap]
  simp [List.mem_iff_getElem?]

/-- The search for a level, as placing it starts it. -/
def find (t : LevelTable) (level : Nat) : Option Nat :=
  seek t.slots level (2 * t.slots.length + level) (level % t.slots.length) level

/-- A table whose size is a power of two and in which every level is found at its own slot. -/
structure Sound (t : LevelTable) : Prop where
  size : ∃ k, t.slots.length = 2 ^ k
  found : ∀ j level : Nat, t.slots[j]? = some (some level) → t.find level = some j

theorem sound_free (k : Nat) : Sound (free (2 ^ k)) where
  size := ⟨k, List.length_replicate⟩
  found j level h := by
    have := List.eq_of_mem_replicate (List.mem_of_getElem? h)
    cases this

theorem Sound.nodup (ht : Sound t) : t.toList.Nodup := by
  rw [toList, List.Nodup, List.pairwise_filterMap, List.pairwise_iff_getElem]
  rintro i j hi hj hij a ha b hb rfl
  have hia := ht.found i a (by rw [List.getElem?_eq_getElem hi]; exact congrArg some ha)
  have hja := ht.found j a (by rw [List.getElem?_eq_getElem hj]; exact congrArg some hb)
  rw [hia] at hja
  exact hij.ne (Option.some.inj hja)

theorem exists_free (h : t.toList.length < t.slots.length) :
    ∃ j : Nat, t.slots[j]? = some none := by
  by_contra hnone
  have hall : ∀ s ∈ t.slots, s.isSome := by
    intro s hs
    obtain ⟨j, hj⟩ := List.mem_iff_getElem?.mp hs
    cases s with
    | none => exact absurd ⟨j, hj⟩ hnone
    | some _ => rfl
  have hlen : t.toList.length = t.slots.length := by
    rw [toList, List.length_filterMap_eq_countP, List.countP_eq_length]
    exact hall
  omega

/-- What placing a level does: nothing if it is in the table, and else it takes a free slot, where
the level is then found. -/
theorem Sound.place_cases (ht : Sound t) (hfree : t.toList.length < t.slots.length) (level : Nat) :
    (level ∈ t.toList ∧ t.place level = t) ∨
    (level ∉ t.toList ∧ ∃ r : Nat, t.slots[r]? = some none ∧ t.find level = some r
      ∧ t.place level = ⟨t.slots.set r (some level)⟩) := by
  obtain ⟨k, hk⟩ := ht.size
  obtain ⟨j, hj⟩ := exists_free hfree
  obtain ⟨r, hr⟩ : ∃ r, t.find level = some r :=
    exists_seek_eq hk hj level (Nat.mod_lt _ (by omega)) (by omega)
  have hplace : t.place level = ⟨t.slots.set r (some level)⟩ := by
    have hr' := hr
    unfold find at hr'
    simp only [place, hr']
  by_cases hmem : level ∈ t.toList
  · obtain ⟨j', hj'⟩ := mem_toList.mp hmem
    obtain rfl : j' = r := Option.some.inj ((ht.found j' level hj').symm.trans hr)
    have hset : t.slots.set j' (some level) = t.slots := by
      obtain ⟨hlt, hget⟩ := List.getElem?_eq_some_iff.mp hj'
      rw [← hget, List.set_getElem_self]
    exact .inl ⟨hmem, by rw [hplace, hset]⟩
  · refine .inr ⟨hmem, r, ?_, hr, hplace⟩
    rcases slot_of_seek hr with hr' | hr'
    · exact hr'
    · exact absurd (mem_toList.mpr ⟨r, hr'⟩) hmem

theorem length_toList_set (hr : t.slots[r]? = some none) (level : Nat) :
    (toList ⟨t.slots.set r (some level)⟩).length = t.toList.length + 1 := by
  obtain ⟨hlt, hget⟩ := List.getElem?_eq_some_iff.mp hr
  have hsplit : t.slots = t.slots.take r ++ none :: t.slots.drop (r + 1) := by
    rw [← hget, List.cons_getElem_drop_succ, List.take_append_drop]
  have hset : t.slots.set r (some level) = t.slots.take r ++ some level :: t.slots.drop (r + 1) :=
    List.set_eq_take_append_cons_drop.trans (if_pos hlt)
  unfold toList
  rw [hset]
  conv_rhs => rw [hsplit]
  simp only [List.filterMap_append, List.filterMap_cons, id, List.length_append, List.length_cons]
  omega

theorem Sound.place (ht : Sound t) (hfree : t.toList.length < t.slots.length) (level : Nat) :
    Sound (t.place level) ∧ (t.place level).slots.length = t.slots.length
      ∧ (t.place level).toList.length ≤ t.toList.length + 1
      ∧ ∀ x, x ∈ (t.place level).toList ↔ x = level ∨ x ∈ t.toList := by
  rcases ht.place_cases hfree level with ⟨hmem, heq⟩ | ⟨hmem, r, hr, hfind, heq⟩
  · rw [heq]
    refine ⟨ht, rfl, Nat.le_succ _, fun x => ⟨.inr, ?_⟩⟩
    rintro (rfl | hx)
    · exact hmem
    · exact hx
  · have hrlt : r < t.slots.length := (List.getElem?_eq_some_iff.mp hr).1
    -- what the slots hold afterwards
    have hslot (j x : Nat) : (t.slots.set r (some level))[j]? = some (some x) ↔
        (j = r ∧ x = level) ∨ t.slots[j]? = some (some x) := by
      by_cases hj : j = r
      · subst hj
        rw [List.getElem?_set_self hrlt, hr]
        simp [eq_comm]
      · rw [List.getElem?_set_ne (Ne.symm hj)]
        simp [hj]
    rw [heq]
    refine ⟨⟨?_, ?_⟩, List.length_set, (length_toList_set hr level).le, fun x => ?_⟩
    · simpa only [List.length_set] using ht.size
    · intro j x hx
      unfold find
      simp only [List.length_set]
      rcases (hslot j x).mp hx with ⟨rfl, rfl⟩ | hx
      · exact seek_set hr hfind (.inr ⟨rfl, rfl⟩)
      · exact seek_set hr (ht.found j x hx) (.inl hx)
    · simp only [mem_toList, hslot, exists_or, exists_and_right, exists_eq, true_and]

theorem Sound.foldl_place (ht : Sound t) (levels : List Nat)
    (hroom : t.toList.length + levels.length < t.slots.length) :
    Sound (levels.foldl LevelTable.place t)
      ∧ (levels.foldl LevelTable.place t).slots.length = t.slots.length
      ∧ (levels.foldl LevelTable.place t).toList.length ≤ t.toList.length + levels.length
      ∧ ∀ x, x ∈ (levels.foldl LevelTable.place t).toList ↔ x ∈ levels ∨ x ∈ t.toList := by
  induction levels generalizing t with
  | nil => simpa using ht
  | cons level rest ih =>
    rw [List.length_cons] at hroom
    obtain ⟨hsound, hsize, hused, hmem⟩ := ht.place (by omega) level
    obtain ⟨hsound', hsize', hused', hmem'⟩ := ih hsound (by omega)
    rw [List.foldl_cons, List.length_cons]
    refine ⟨hsound', hsize'.trans hsize, by omega, fun x => ?_⟩
    rw [hmem', hmem, List.mem_cons]
    tauto

theorem exists_doubled_eq (bound fuel size : Nat) :
    ∃ k, doubled bound fuel size = size * 2 ^ k := by
  induction fuel generalizing size with
  | zero => exact ⟨0, by simp [doubled]⟩
  | succ fuel ih =>
    rw [doubled]
    split
    · obtain ⟨k, hk⟩ := ih (2 * size)
      exact ⟨k + 1, by rw [hk]; ring⟩
    · exact ⟨0, by simp⟩

theorem lt_doubled {bound size : Nat} (h : bound < size + fuel) (hsize : 0 < size) :
    bound < doubled bound fuel size := by
  induction fuel generalizing size with
  | zero => simpa [doubled] using h
  | succ fuel ih =>
    rw [doubled]
    split
    · exact ih (by omega) (by omega)
    · omega

/-- A table that is sound and not more than three fifths full. -/
structure Roomy (t : LevelTable) : Prop extends Sound t where
  load : t.toList.length * 5 < (t.slots.length - 1) * 3

theorem Roomy.insert (ht : Roomy t) (level : Nat) :
    Roomy (t.insert level) ∧ ∀ x, x ∈ (t.insert level).toList ↔ x = level ∨ x ∈ t.toList := by
  have hfree : t.toList.length < t.slots.length := by
    have := ht.load
    omega
  obtain ⟨hsound, hsize, hused, hmem⟩ := ht.toSound.place hfree level
  unfold LevelTable.insert
  simp only
  split
  · -- the number of levels is the same, so the level was there
    next hsame =>
    refine ⟨ht, fun x => ⟨.inr, ?_⟩⟩
    rintro (rfl | hx)
    · rcases ht.toSound.place_cases hfree x with ⟨hx, -⟩ | ⟨-, r, hr, -, heq⟩
      · exact hx
      · rw [heq, length_toList_set hr] at hsame
        omega
    · exact hx
  split
  · next hload => exact ⟨⟨hsound, hload⟩, hmem⟩
  · -- all levels move to a table of more than four times as many slots
    set levels := (t.place level).toList
    set size := doubled (levels.length * 4) (levels.length * 4) 8 with hsizedef
    obtain ⟨k, hk⟩ := exists_doubled_eq (levels.length * 4) (levels.length * 4) 8
    have hpow : size = 2 ^ (k + 3) := by rw [hsizedef, hk]; ring
    have hlarge : levels.length * 4 < size := lt_doubled (by omega) (by omega)
    have hempty : (free size).toList = [] := by simp [free, toList]
    have hslots : (free size).slots.length = size := List.length_replicate
    obtain ⟨hsound', hsize', hused', hmem'⟩ :=
      Sound.foldl_place (t := free size) (hpow ▸ sound_free (k + 3)) levels
        (by rw [hempty, hslots, List.length_nil]; omega)
    rw [hempty, List.length_nil, Nat.zero_add] at hused'
    refine ⟨⟨hsound', by omega⟩, fun x => ?_⟩
    rw [hmem', hempty, hmem]
    simp

theorem roomy_free : Roomy (free 8) where
  toSound := sound_free 3
  load := by decide

theorem Roomy.foldl_insert (ht : Roomy t) (levels : List Nat) :
    Roomy (levels.foldl LevelTable.insert t)
      ∧ ∀ x, x ∈ (levels.foldl LevelTable.insert t).toList ↔ x ∈ levels ∨ x ∈ t.toList := by
  induction levels generalizing t with
  | nil => simpa using ht
  | cons level rest ih =>
    obtain ⟨hroomy, hmem⟩ := ht.insert level
    obtain ⟨hroomy', hmem'⟩ := ih hroomy
    refine ⟨hroomy', fun x => ?_⟩
    rw [List.foldl_cons, hmem', hmem, List.mem_cons]
    tauto

/-! ## Levels in slots of their own number -/

/-- Every level is in the slot of its own number. -/
def AtHome (t : LevelTable) : Prop :=
  ∀ j level : Nat, t.slots[j]? = some (some level) → j = level

theorem atHome_free (size : Nat) : AtHome (free size) := by
  intro j level h
  simp [free, List.getElem?_replicate] at h

theorem length_slots_place (t : LevelTable) (level : Nat) :
    (t.place level).slots.length = t.slots.length := by
  unfold place
  dsimp only
  split
  · exact List.length_set
  · rfl

/-- A level below the number of slots is placed at home: the first slot that is tried is free or
has it already. -/
theorem AtHome.place (h : AtHome t) (hlevel : level < t.slots.length) : AtHome (t.place level) := by
  have hscan {count : Nat} (hcount : 0 < count) : scan t.slots level count level = some level := by
    obtain ⟨count, rfl⟩ := Nat.exists_eq_add_of_lt hcount
    cases hslot : t.slots[level]? with
    | none => exact absurd (List.getElem?_eq_none_iff.mp hslot) (by omega)
    | some slot =>
      cases slot with
      | none => exact scan_of_free level hcount hslot
      | some k => simp [scan, hslot, (h level k hslot).symm]
  have hseek : seek t.slots level (2 * t.slots.length + level) (level % t.slots.length) level
      = some level := by
    obtain ⟨fuel, hfuel⟩ : ∃ fuel, 2 * t.slots.length + level = fuel + 1 :=
      Nat.exists_eq_succ_of_ne_zero (by omega)
    rw [Nat.mod_eq_of_lt hlevel, hfuel, seek]
    rw [hscan (by split <;> omega)]
  intro j k hk
  rw [LevelTable.place, hseek] at hk
  by_cases hj : j = level
  · subst hj
    rw [List.getElem?_set_self hlevel] at hk
    exact Option.some.inj (Option.some.inj hk)
  · rw [List.getElem?_set_ne (Ne.symm hj)] at hk
    exact h j k hk

theorem AtHome.foldl_place (h : AtHome t) {levels : List Nat}
    (hlevels : ∀ level ∈ levels, level < t.slots.length) :
    AtHome (levels.foldl LevelTable.place t) := by
  induction levels generalizing t with
  | nil => exact h
  | cons level rest ih =>
    refine ih (h.place (hlevels level (by simp))) fun k hk => ?_
    rw [length_slots_place]
    exact hlevels k (by simp [hk])

theorem length_slots_foldl_place (t : LevelTable) (levels : List Nat) :
    (levels.foldl place t).slots.length = t.slots.length := by
  induction levels generalizing t with
  | nil => rfl
  | cons level rest ih => rw [List.foldl_cons, ih, length_slots_place]

theorem AtHome.pairwise_toList (h : AtHome t) : t.toList.Pairwise (· < ·) := by
  refine List.pairwise_filterMap.mpr (List.pairwise_iff_getElem.mpr ?_)
  intro i j hi hj hij a ha b hb
  obtain rfl := h i a (List.getElem?_eq_some_iff.mpr ⟨hi, ha⟩)
  obtain rfl := h j b (List.getElem?_eq_some_iff.mpr ⟨hj, hb⟩)
  exact hij

/-- The table has eight slots or more, and its levels are at home if all are below the number of
its slots. -/
structure Homed (t : LevelTable) : Prop extends Roomy t where
  size_ge : 8 ≤ t.slots.length
  atHome : (∀ level ∈ t.toList, level < t.slots.length) → AtHome t

theorem le_doubled (bound fuel size : Nat) : size ≤ doubled bound fuel size := by
  obtain ⟨k, hk⟩ := exists_doubled_eq bound fuel size
  rw [hk]
  exact Nat.le_mul_of_pos_right size (by positivity)

theorem insert_cases (t : LevelTable) (level : Nat) :
    t.insert level = t ∨ t.insert level = t.place level
      ∨ ∃ size ≥ 8, t.insert level = (t.place level).toList.foldl place (free size) := by
  unfold LevelTable.insert
  dsimp only
  split
  · exact .inl rfl
  split
  · exact .inr (.inl rfl)
  · exact .inr (.inr ⟨_, le_doubled _ _ 8, rfl⟩)

theorem Homed.insert (ht : Homed t) (level : Nat) : Homed (t.insert level) := by
  obtain ⟨hroomy, hmem⟩ := ht.toRoomy.insert level
  obtain ⟨-, -, -, hplaced⟩ := ht.toSound.place (by have := ht.load; omega) level
  rcases insert_cases t level with heq | heq | ⟨size, hsize, heq⟩
  · rw [heq]
    exact ht
  · rw [heq] at hroomy ⊢
    refine ⟨hroomy, (length_slots_place t level).symm ▸ ht.size_ge, fun h => ?_⟩
    rw [length_slots_place] at h
    have hold := ht.atHome fun k hk => h k ((hplaced k).mpr (.inr hk))
    exact hold.place (h level ((hplaced level).mpr (.inl rfl)))
  · -- all levels move to a new table, where the same first slots are tried
    have hslots : (t.insert level).slots.length = size := by
      rw [heq, length_slots_foldl_place]
      exact List.length_replicate
    refine ⟨hroomy, hslots ▸ hsize, fun h => ?_⟩
    rw [heq]
    refine (atHome_free size).foldl_place fun k hk => ?_
    have hk := h k ((hmem k).mpr ((hplaced k).mp hk))
    exact (hslots ▸ hk).trans_eq List.length_replicate.symm

theorem Homed.foldl_insert (ht : Homed t) (levels : List Nat) :
    Homed (levels.foldl LevelTable.insert t) := by
  induction levels generalizing t with
  | nil => exact ht
  | cons level rest ih => exact ih (ht.insert level)

theorem homed_free : Homed (free 8) where
  toRoomy := roomy_free
  size_ge := by decide
  atHome _ := atHome_free 8

end LevelTable

/-! ## What the table lists -/

theorem mem_levelOrder {levels : List Nat} {level : Nat} :
    level ∈ levelOrder levels ↔ level ∈ levels := by
  rw [levelOrder, (LevelTable.roomy_free.foldl_insert levels).2]
  simp [LevelTable.free, LevelTable.toList]

theorem nodup_levelOrder (levels : List Nat) : (levelOrder levels).Nodup :=
  (LevelTable.roomy_free.foldl_insert levels).1.toSound.nodup

/-- How many slots the table has that collects levels. -/
def levelSlots (levels : List Nat) : Nat :=
  (levels.foldl LevelTable.insert (LevelTable.free 8)).slots.length

theorem eight_le_levelSlots (levels : List Nat) : 8 ≤ levelSlots levels :=
  (LevelTable.homed_free.foldl_insert levels).size_ge

theorem pairwise_levelOrder {levels : List Nat} (h : ∀ level ∈ levels, level < levelSlots levels) :
    (levelOrder levels).Pairwise (· < ·) :=
  ((LevelTable.homed_free.foldl_insert levels).atHome fun level hlevel =>
    h level (mem_levelOrder.mp hlevel)).pairwise_toList

end SheetIntake
