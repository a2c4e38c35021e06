import Mathlib.Data.Int.Log
import Mathlib.Data.Rat.Floor
import Mathlib.Tactic.FieldSimp
import Mathlib.Tactic.Positivity
import Mathlib.Tactic.Ring
import SheetIntake.Decimal.Shortest

/-!
# Decimals that read back

A floating point number is written with a decimal that reads back as the same number. Rounding sees
the value of a fraction and not its terms, so digits may be moved between the significand of a
decimal and its power.

* `Binary64.quotientExponent_eq` — the exponent is the binary logarithm of the value.
-/

namespace SheetIntake.Binary64

/-! ## The exponent of a fraction -/

theorem zpow_eq_ratio (n : Int) :
    (2 : ℚ) ^ n = if n < 0 then 1 / (2 : ℚ) ^ (-n).toNat else (2 : ℚ) ^ n.toNat := by
  split
  · next h =>
    obtain ⟨k, rfl⟩ : ∃ k : Nat, n = -(k : Int) := ⟨(-n).toNat, by omega⟩
    rw [neg_neg, Int.toNat_natCast, zpow_neg, zpow_natCast, one_div]
  · next h =>
    obtain ⟨k, rfl⟩ : ∃ k : Nat, n = k := ⟨n.toNat, by omega⟩
    rw [Int.toNat_natCast, zpow_natCast]

variable {num den : Nat}

theorem belowPower_iff (hden : den ≠ 0) (power : Int) :
    belowPower num den power ↔ (num : ℚ) / den < 2 ^ power := by
  have hpos : (0 : ℚ) < den := by positivity
  unfold belowPower
  rw [zpow_eq_ratio]
  split
  · rw [decide_eq_true_iff, div_lt_div_iff₀ hpos (by positivity), one_mul, Nat.pow_eq]
    norm_cast
  · rw [decide_eq_true_iff, div_lt_iff₀ hpos, Nat.pow_eq, mul_comm]
    norm_cast

theorem log2_bounds {n : Nat} (h : n ≠ 0) :
    (2 : ℚ) ^ (n.log2 : Int) ≤ n ∧ (n : ℚ) < 2 ^ ((n.log2 : Int) + 1) := by
  exact ⟨mod_cast Nat.log2_self_le h, mod_cast Nat.lt_log2_self⟩

theorem log_ratio_bounds (hnum : num ≠ 0) (hden : den ≠ 0) :
    (num.log2 : Int) - den.log2 - 1 ≤ Int.log 2 ((num : ℚ) / den)
      ∧ Int.log 2 ((num : ℚ) / den) ≤ num.log2 - den.log2 := by
  have hpos : (0 : ℚ) < den := by positivity
  have hratio : (0 : ℚ) < (num : ℚ) / den := by positivity
  obtain ⟨hnumLow, hnumHigh⟩ := log2_bounds hnum
  obtain ⟨hdenLow, hdenHigh⟩ := log2_bounds hden
  constructor
  · rw [← Int.zpow_le_iff_le_log (by decide) hratio, le_div_iff₀ hpos, Nat.cast_ofNat]
    calc (2 : ℚ) ^ ((num.log2 : Int) - den.log2 - 1) * den
        ≤ 2 ^ ((num.log2 : Int) - den.log2 - 1) * 2 ^ ((den.log2 : Int) + 1) :=
          mul_le_mul_of_nonneg_left hdenHigh.le (zpow_pos two_pos _).le
      _ = 2 ^ (num.log2 : Int) := by
          rw [← zpow_add₀ two_ne_zero]
          congr 1
          omega
      _ ≤ num := hnumLow
  · rw [← Int.lt_add_one_iff, ← Int.lt_zpow_iff_log_lt (by decide) hratio, div_lt_iff₀ hpos,
      Nat.cast_ofNat]
    calc (num : ℚ) < 2 ^ ((num.log2 : Int) + 1) := hnumHigh
      _ = 2 ^ ((num.log2 : Int) - den.log2 + 1) * 2 ^ (den.log2 : Int) := by
          rw [← zpow_add₀ two_ne_zero]
          congr 1
          omega
      _ ≤ 2 ^ ((num.log2 : Int) - den.log2 + 1) * den :=
          mul_le_mul_of_nonneg_left hdenLow (zpow_pos two_pos _).le

theorem quotientExponent_eq (hnum : num ≠ 0) (hden : den ≠ 0) :
    quotientExponent num den = max (Int.log 2 ((num : ℚ) / den) - 52) (-1074) := by
  have hratio : (0 : ℚ) < (num : ℚ) / den := by positivity
  obtain ⟨hlow, hhigh⟩ := log_ratio_bounds hnum hden
  have hbelow : belowPower num den ((num.log2 : Int) - den.log2 - 52 + 52) ↔ _ :=
    belowPower_iff hden _
  have hlog : (num : ℚ) / den < (2 : ℚ) ^ ((num.log2 : Int) - den.log2 - 52 + 52) ↔
      Int.log 2 ((num : ℚ) / den) < (num.log2 : Int) - den.log2 - 52 + 52 :=
    Int.lt_zpow_iff_log_lt (by decide) hratio
  rw [hlog] at hbelow
  unfold quotientExponent
  dsimp only
  split
  · next h =>
    have hlt := hbelow.mp h
    congr 1
    omega
  · next h =>
    have hnot := hbelow.not.mp h
    congr 1
    omega

/-! ## Equal fractions -/

variable {k : Nat} (negative : Bool)

theorem roundQuotient_mul (num den : Nat) (hk : 0 < k) :
    roundQuotient (num * k) (den * k) = roundQuotient num den := by
  unfold roundQuotient
  rw [Nat.mul_div_mul_right _ _ hk, Nat.mul_mod_mul_right, ← mul_assoc]
  simp only [Nat.mul_lt_mul_right hk]

theorem scaledQuotient_mul (num den : Nat) (hk : 0 < k) (exponent : Int) :
    scaledQuotient (num * k) (den * k) exponent = scaledQuotient num den exponent := by
  unfold scaledQuotient
  split
  · rw [Nat.mul_right_comm, roundQuotient_mul _ _ hk]
  · rw [Nat.mul_right_comm den, roundQuotient_mul _ _ hk]

theorem ofRatio_mul (hden : den ≠ 0) (hk : 0 < k) :
    ofRatio negative (num * k) (den * k) = ofRatio negative num den := by
  by_cases hnum : num = 0
  · rw [hnum, Nat.zero_mul]
    rfl
  have hratio : ((num * k : Nat) : ℚ) / (den * k : Nat) = (num : ℚ) / den := by
    have hk' : (k : ℚ) ≠ 0 := by positivity
    rw [Nat.cast_mul, Nat.cast_mul, mul_div_mul_right _ _ hk']
  have hexponent : quotientExponent (num * k) (den * k) = quotientExponent num den := by
    rw [quotientExponent_eq (Nat.mul_ne_zero hnum hk.ne') (Nat.mul_ne_zero hden hk.ne'), hratio,
      quotientExponent_eq hnum hden]
  unfold ofRatio
  rw [if_neg (Nat.mul_ne_zero hnum hk.ne'), if_neg hnum, hexponent]
  dsimp only
  rw [scaledQuotient_mul _ _ hk]

theorem ofRatio_eq_of_mul_eq {num' den' : Nat} (hden : den ≠ 0) (hden' : den' ≠ 0)
    (h : num * den' = num' * den) : ofRatio negative num den = ofRatio negative num' den' := by
  rw [← ofRatio_mul negative hden (Nat.pos_of_ne_zero hden'), h, Nat.mul_comm den,
    ofRatio_mul negative hden' (Nat.pos_of_ne_zero hden)]

/-! ## Decimals with more zeros -/

variable {n : Nat}

theorem digitCount_le_iff (hk : 0 < k) : digitCount n ≤ k ↔ n < 10 ^ k :=
  Nat.length_toDigits_le_iff (by decide) hk

theorem digitCount_pos (n : Nat) : 0 < digitCount n :=
  Nat.length_toDigits_pos

theorem digitCount_eq_iff (hk : 0 < k) (hn : n ≠ 0) :
    digitCount n = k ↔ 10 ^ (k - 1) ≤ n ∧ n < 10 ^ k := by
  have hhigh : digitCount n ≤ k ↔ n < 10 ^ k := digitCount_le_iff hk
  rcases Nat.eq_or_lt_of_le (show 1 ≤ k from hk) with rfl | hk'
  · have hpos := digitCount_pos n
    omega
  · have hlow : digitCount n ≤ k - 1 ↔ n < 10 ^ (k - 1) := digitCount_le_iff (by omega)
    omega

theorem digitCount_mul_pow (hn : n ≠ 0) (k : Nat) : digitCount (n * 10 ^ k) = digitCount n + k := by
  obtain ⟨hlow, hhigh⟩ := (digitCount_eq_iff (digitCount_pos n) hn).mp rfl
  have hpos := digitCount_pos n
  rw [digitCount_eq_iff (by omega) (Nat.mul_ne_zero hn (by positivity))]
  constructor
  · rw [show digitCount n + k - 1 = digitCount n - 1 + k from by omega, pow_add]
    exact Nat.mul_le_mul_right _ hlow
  · rw [pow_add]
    exact Nat.mul_lt_mul_of_pos_right hhigh (by positivity)

theorem ofDecimal_mul_pow (digits : Nat) (power : Int) (k : Nat) :
    ofDecimal negative (digits * 10 ^ k) (power - k) = ofDecimal negative digits power := by
  by_cases hdigits : digits = 0
  · rw [hdigits, Nat.zero_mul]
    rfl
  have hmagnitude : power - k + ((digitCount digits + k : Nat) : Int) =
      power + digitCount digits := by omega
  unfold ofDecimal
  rw [if_neg (Nat.mul_ne_zero hdigits (by positivity)), if_neg hdigits, digitCount_mul_pow hdigits,
    hmagnitude]
  dsimp only
  split
  · rfl
  split
  · rfl
  simp only [Nat.pow_eq]
  have hten : ∀ n : Nat, (10 : Nat) ^ n ≠ 0 := fun n => by positivity
  split
  · split
    · next hneg hneg' =>
      refine ofRatio_eq_of_mul_eq negative (hten _) (hten _) ?_
      rw [mul_assoc, ← pow_add]
      congr 2
      omega
    · next hneg hpos =>
      refine ofRatio_eq_of_mul_eq negative (hten _) one_ne_zero ?_
      rw [mul_one, mul_assoc, ← pow_add]
      congr 2
      omega
  · next hpos =>
    rw [if_neg (by omega)]
    refine ofRatio_eq_of_mul_eq negative one_ne_zero one_ne_zero ?_
    rw [mul_one, mul_one, mul_assoc, ← pow_add]
    congr 2
    omega

/-! ## Numbers that need no rounding -/

theorem roundQuotient_one (n : Nat) : roundQuotient n 1 = n := by
  unfold roundQuotient
  rw [Nat.div_one, Nat.mod_one]
  rfl

theorem scaledQuotient_magnitude (significand : Nat) (exponent : Int) :
    scaledQuotient (magnitude significand exponent).1 (magnitude significand exponent).2 exponent =
      significand := by
  have hpos : ∀ n : Nat, 0 < Nat.pow 2 n := fun n => Nat.pow_pos (by decide)
  unfold scaledQuotient magnitude
  split
  · have hround := roundQuotient_mul significand 1 (hpos (-exponent).toNat)
    rwa [one_mul, roundQuotient_one] at hround
  · have hround := roundQuotient_mul significand 1 (hpos exponent.toNat)
    rwa [roundQuotient_one] at hround

theorem magnitude_ratio (significand : Nat) (exponent : Int) :
    ((magnitude significand exponent).1 : ℚ) / (magnitude significand exponent).2 =
      significand * 2 ^ exponent := by
  unfold magnitude
  rw [zpow_eq_ratio]
  split
  · rw [Nat.pow_eq, mul_one_div, Nat.cast_pow, Nat.cast_ofNat]
  · rw [Nat.pow_eq, Nat.cast_mul, Nat.cast_pow, Nat.cast_ofNat, Nat.cast_one, div_one]

variable {significand : Nat}

theorem magnitude_ne_zero (h : significand ≠ 0) (exponent : Int) :
    (magnitude significand exponent).1 ≠ 0 ∧ (magnitude significand exponent).2 ≠ 0 := by
  have hpow : ∀ n : Nat, Nat.pow 2 n ≠ 0 := fun n => (Nat.pow_pos (by decide)).ne'
  unfold magnitude
  split
  · exact ⟨h, hpow _⟩
  · exact ⟨Nat.mul_ne_zero h (hpow _), one_ne_zero⟩

theorem log_magnitude (h : significand ≠ 0) (exponent : Int) :
    Int.log 2 ((significand : ℚ) * 2 ^ exponent) = significand.log2 + exponent := by
  have hpos : (0 : ℚ) < significand * 2 ^ exponent := by
    have := zpow_pos (two_pos : (0 : ℚ) < 2) exponent
    positivity
  obtain ⟨hlow, hhigh⟩ := log2_bounds h
  apply le_antisymm
  · rw [← Int.lt_add_one_iff, ← Int.lt_zpow_iff_log_lt (by decide) hpos, Nat.cast_ofNat,
      show (significand.log2 : Int) + exponent + 1 = significand.log2 + 1 + exponent from by omega,
      zpow_add₀ two_ne_zero]
    exact mul_lt_mul_of_pos_right hhigh (zpow_pos two_pos _)
  · rw [← Int.zpow_le_iff_le_log (by decide) hpos, Nat.cast_ofNat, zpow_add₀ two_ne_zero]
    exact mul_le_mul_of_nonneg_right hlow (zpow_pos two_pos _).le

theorem ofRatio_magnitude {exponent : Int} (hne : significand ≠ 0)
    (h : Canonical significand exponent) :
    ofRatio negative (magnitude significand exponent).1 (magnitude significand exponent).2 =
      .finite negative significand exponent h := by
  obtain ⟨hnum, hden⟩ := magnitude_ne_zero hne exponent
  obtain ⟨hlt, hleast, hgreatest, hfull⟩ := h
  have hexponent : quotientExponent (magnitude significand exponent).1
      (magnitude significand exponent).2 = exponent := by
    rw [quotientExponent_eq hnum hden, magnitude_ratio, log_magnitude hne]
    have hbits : significand.log2 < 53 := (Nat.log2_lt hne).mpr hlt
    rcases hfull with hfull | hfull
    · have hfull' : ¬ significand.log2 < 52 := by
        rw [Nat.log2_lt hne]
        exact Nat.not_lt.mpr hfull
      omega
    · omega
  unfold ofRatio
  rw [if_neg hnum, hexponent]
  dsimp only
  rw [scaledQuotient_magnitude, if_neg (Nat.ne_of_lt hlt), ofParts,
    dif_pos ⟨hlt, hleast, hgreatest, hfull⟩]

/-! ## Signs -/

def withSign (negative : Bool) : Binary64 → Binary64
  | .nan => .nan
  | .infinite _ => .infinite negative
  | .finite _ significand exponent h => .finite negative significand exponent h

theorem ofParts_eq_withSign (significand : Nat) (exponent : Int) :
    ofParts negative significand exponent = (ofParts false significand exponent).withSign negative := by
  unfold ofParts
  split <;> rfl

theorem ofRatio_eq_withSign (num den : Nat) :
    ofRatio negative num den = (ofRatio false num den).withSign negative := by
  unfold ofRatio
  split
  · rfl
  · dsimp only
    split <;> exact ofParts_eq_withSign ..

theorem ofDecimal_eq_withSign (digits : Nat) (power : Int) :
    ofDecimal negative digits power = (ofDecimal false digits power).withSign negative := by
  unfold ofDecimal
  split
  · rfl
  dsimp only
  split
  · rfl
  split
  · rfl
  split <;> exact ofRatio_eq_withSign ..

end SheetIntake.Binary64

namespace SheetIntake.Decimal

open Binary64

/-! ## The shortest decimal -/

theorem toBinary64_trim (negative : Bool) (fuel : Nat) (d : Decimal) :
    (trim fuel d).toBinary64 negative = d.toBinary64 negative := by
  induction fuel generalizing d with
  | zero => rfl
  | succ fuel ih =>
    unfold trim
    split
    · next h =>
      have hdigits : d.digits = d.digits / 10 * 10 ^ 1 := by omega
      have hmoved := ofDecimal_mul_pow negative (d.digits / 10) (d.power + 1) 1
      rw [← hdigits, show d.power + 1 - ((1 : Nat) : Int) = d.power from by omega] at hmoved
      rw [ih]
      exact hmoved.symm
    · rfl

theorem toBinary64_of_search {x : Binary64} {num den : Nat} {top : Int} {count size : Nat}
    {d : Decimal} (h : search x num den top count size = some d) : d.toBinary64 false = x := by
  induction count generalizing size with
  | zero => exact absurd h (by simp [search])
  | succ count ih =>
    unfold search at h
    split at h
    · next found hfound =>
      cases h
      simpa using List.find?_some hfound
    · exact ih h

theorem two_pow_le_pow {base : Nat} (bits : Nat) (hbase : 2 ^ bits ≤ base) {j n : Nat}
    (h : j ≤ bits * n) : 2 ^ j ≤ base ^ n :=
  calc 2 ^ j ≤ 2 ^ (bits * n) := Nat.pow_le_pow_right (by decide) h
    _ = (2 ^ bits) ^ n := pow_mul ..
    _ ≤ base ^ n := Nat.pow_le_pow_left hbase n

variable {significand : Nat} (negative : Bool)

/-- The digits of a floating point number that is written out are within the range of decimals that
are rounded. -/
theorem digitCount_exactly_fraction {k : Nat} (hne : significand ≠ 0) (hlt : significand < 2 ^ 53)
    (hk : k ≤ 1074) :
    digitCount (significand * 5 ^ k) ≤ k + 400 ∧ k ≤ digitCount (significand * 5 ^ k) + 400 := by
  constructor
  · have hfive : 5 ^ k ≤ 10 ^ k := Nat.pow_le_pow_left (by decide) k
    have hsmall : significand < 10 ^ 400 :=
      hlt.trans_le (two_pow_le_pow 3 (by decide) (by decide))
    rw [digitCount_le_iff (by omega), pow_add, mul_comm]
    exact Nat.mul_lt_mul_of_le_of_lt hfive hsmall (by positivity)
  · by_contra hcon
    have hfew : digitCount (significand * 5 ^ k) ≤ k - 401 := by omega
    rw [digitCount_le_iff (by have := digitCount_pos (significand * 5 ^ k); omega)] at hfew
    have hpow : 10 ^ (k - 401) ≤ 5 ^ k :=
      calc (5 * 2) ^ (k - 401) = 5 ^ (k - 401) * 2 ^ (k - 401) := mul_pow ..
        _ ≤ 5 ^ (k - 401) * 5 ^ 401 :=
            Nat.mul_le_mul_left _ (two_pow_le_pow 2 (by decide) (by omega))
        _ = 5 ^ k := by
            rw [← pow_add]
            congr 1
            omega
    have hone : 1 * 5 ^ k ≤ significand * 5 ^ k :=
      Nat.mul_le_mul_right _ (Nat.pos_of_ne_zero hne)
    omega

theorem digitCount_exactly_whole {k : Nat} (hlt : significand < 2 ^ 53) (hk : k ≤ 971) :
    digitCount (significand * 2 ^ k) ≤ 400 := by
  rw [digitCount_le_iff (by decide)]
  calc significand * 2 ^ k < 2 ^ 53 * 2 ^ k := Nat.mul_lt_mul_of_pos_right hlt (by positivity)
    _ = 2 ^ (53 + k) := by rw [pow_add]
    _ ≤ 10 ^ 400 := two_pow_le_pow 3 (by decide) (by omega)

theorem toBinary64_exactly {exponent : Int} (hne : significand ≠ 0)
    (h : Canonical significand exponent) : (exactly significand exponent).toBinary64 negative =
      .finite negative significand exponent h := by
  rw [← ofRatio_magnitude negative hne h]
  obtain ⟨hlt, hleast, hgreatest, -⟩ := h
  unfold exactly magnitude toBinary64 ofDecimal
  by_cases hneg : exponent < 0
  · obtain ⟨k, rfl⟩ : ∃ k : Nat, exponent = -(k : Int) := ⟨(-exponent).toNat, by omega⟩
    obtain ⟨hfew, hmany⟩ := digitCount_exactly_fraction hne hlt (show k ≤ 1074 by omega)
    rw [if_pos hneg, if_pos hneg]
    dsimp only
    rw [neg_neg, Int.toNat_natCast, Nat.pow_eq, Nat.pow_eq, Nat.pow_eq,
      if_neg (Nat.mul_ne_zero hne (by positivity)), if_neg (by omega), if_neg (by omega),
      if_pos hneg]
    refine ofRatio_eq_of_mul_eq negative (by positivity) (by positivity) ?_
    show significand * 5 ^ k * 2 ^ k = significand * (5 * 2) ^ k
    rw [mul_assoc, ← mul_pow]
  · obtain ⟨k, rfl⟩ : ∃ k : Nat, exponent = k := ⟨exponent.toNat, by omega⟩
    have hfew := digitCount_exactly_whole hlt (show k ≤ 971 by omega)
    rw [if_neg hneg, if_neg hneg]
    dsimp only
    rw [Int.toNat_natCast, Nat.pow_eq, if_neg (Nat.mul_ne_zero hne (by positivity)),
      if_neg (by omega), if_neg (by omega), if_neg (by decide)]
    rw [show Nat.pow 10 (0 : Int).toNat = 1 from rfl, mul_one]

theorem toBinary64_shortest {exponent : Int}
    (h : Canonical significand exponent) : (shortest significand exponent).toBinary64 negative =
      .finite negative significand exponent h := by
  unfold shortest
  by_cases hzero : significand = 0
  · subst hzero
    have hleast : exponent = -1074 := h.2.2.2.resolve_left (by decide)
    subst hleast
    rfl
  rw [if_neg hzero]
  dsimp only
  split
  · next d hsearch =>
    have hread := toBinary64_of_search hsearch
    rw [toBinary64_trim]
    unfold toBinary64 at hread ⊢
    rw [ofDecimal_eq_withSign, hread, ofParts, dif_pos h]
    rfl
  · exact toBinary64_exactly negative hzero h

end SheetIntake.Decimal
