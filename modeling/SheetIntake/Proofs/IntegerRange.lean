import Mathlib.Tactic.Positivity
import Mathlib.Tactic.Ring
import SheetIntake.Decimal.Binary64

/-!
# The integers with a floating point number

An integer is rounded to 53 bits. The greatest finite number is `2 ^ 1024 - 2 ^ 971`, and everything
from half a step above it, `2 ^ 1024 - 2 ^ 970`, rounds to `2 ^ 1024`, which is beyond all of them.

* `Binary64.roundQuotient_bounds` — a quotient between two integers rounds to one between them.
-/

namespace SheetIntake.Binary64

/-! ## Rounding -/

theorem roundQuotient_bounds {num den low high : Nat} (hlow : low * den ≤ num)
    (hhigh : num < high * den) : low ≤ roundQuotient num den ∧ roundQuotient num den ≤ high := by
  have hden : 0 < den := Nat.pos_of_ne_zero (by rintro rfl; simp at hhigh)
  have hquotient : low ≤ num / den := (Nat.le_div_iff_mul_le hden).mpr hlow
  have hlt : num / den < high := (Nat.div_lt_iff_lt_mul hden).mpr hhigh
  simp only [roundQuotient]
  split
  · omega
  · split
    · omega
    · split <;> omega

/-- Up to an even integer, a quotient is rounded from the half on. -/
theorem roundQuotient_eq_iff {num half high : Nat} (heven : high % 2 = 0)
    (hhigh : num < high * (2 * half)) :
    roundQuotient num (2 * half) = high ↔ high * (2 * half) ≤ num + half := by
  have hden : 0 < 2 * half := Nat.pos_of_ne_zero (by intro h; rw [h] at hhigh; omega)
  have hlt : num / (2 * half) < high := (Nat.div_lt_iff_lt_mul hden).mpr hhigh
  have hsplit := Nat.div_add_mod num (2 * half)
  have hrest := Nat.mod_lt num hden
  simp only [roundQuotient]
  generalize num / (2 * half) = quotient at *
  generalize num % (2 * half) = rest at *
  by_cases hnext : high = quotient + 1
  · -- the integer is the next one: only the rest decides
    have hproduct : high * (2 * half) = 2 * half * quotient + 2 * half := by rw [hnext]; ring
    split
    · omega
    · split
      · omega
      · split <;> omega
  · -- it is out of reach
    have hproduct : 2 * half * quotient + 2 * (2 * half) ≤ high * (2 * half) := by
      calc 2 * half * quotient + 2 * (2 * half) = (quotient + 2) * (2 * half) := by ring
        _ ≤ high * (2 * half) := Nat.mul_le_mul_right _ (by omega)
    constructor
    · intro h
      split at h
      · omega
      · split at h
        · omega
        · split at h <;> omega
    · omega

/-! ## The exponent and the significand of a natural number -/

theorem quotientExponent_one {n : Nat} (hn : n ≠ 0) :
    quotientExponent n 1 = (n.log2 : Int) - 52 := by
  have hbelow : belowPower n 1 ((n.log2 : Int) - (Nat.log2 1 : Int) - 52 + 52) = false := by
    have hle := Nat.log2_self_le hn
    rw [show (n.log2 : Int) - (Nat.log2 1 : Int) - 52 + 52 = n.log2 from by
      rw [show Nat.log2 1 = 0 from by decide]; omega]
    rw [belowPower, if_neg (by omega), Int.toNat_natCast, one_mul]
    simpa using hle
  rw [quotientExponent]
  simp only [hbelow]
  rw [show Nat.log2 1 = 0 from by decide, if_neg Bool.false_ne_true]
  omega

theorem scaledQuotient_succ (n k : Nat) :
    scaledQuotient n 1 ((k + 1 : Nat) : Int) = roundQuotient n (2 * 2 ^ k) := by
  rw [scaledQuotient, if_neg (by omega), Int.toNat_natCast, one_mul, Nat.pow_eq, pow_succ']

/-- The significand has 53 bits, unless it is rounded up to the first number of 54 bits. -/
theorem scaledQuotient_bounds {n : Nat} (hn : n ≠ 0) :
    2 ^ 52 ≤ scaledQuotient n 1 ((n.log2 : Int) - 52)
      ∧ scaledQuotient n 1 ((n.log2 : Int) - 52) ≤ 2 ^ 53 := by
  have hlow := Nat.log2_self_le hn
  have hhigh := Nat.lt_log2_self (n := n)
  rw [scaledQuotient]
  split
  · next hneg =>
    -- the number is shifted up to 53 bits
    obtain ⟨k, hk⟩ : ∃ k, n.log2 + k = 52 := ⟨52 - n.log2, by omega⟩
    rw [show (-((n.log2 : Int) - 52)).toNat = k from by omega, Nat.pow_eq]
    apply roundQuotient_bounds
    · calc 2 ^ 52 * 1 = 2 ^ n.log2 * 2 ^ k := by rw [← pow_add, hk, mul_one]
        _ ≤ n * 2 ^ k := Nat.mul_le_mul_right _ hlow
    · calc n * 2 ^ k < 2 ^ (n.log2 + 1) * 2 ^ k := Nat.mul_lt_mul_of_pos_right hhigh (by positivity)
        _ = 2 ^ 53 * 1 := by rw [← pow_add, mul_one]; congr 1; omega
  · next hpos =>
    -- the number is cut down to 53 bits
    obtain ⟨k, hk⟩ : ∃ k, n.log2 = 52 + k := ⟨n.log2 - 52, by omega⟩
    rw [show ((n.log2 : Int) - 52).toNat = k from by omega, Nat.pow_eq, one_mul]
    apply roundQuotient_bounds
    · rwa [← pow_add, ← hk]
    · rwa [← pow_add, show 53 + k = n.log2 + 1 from by omega]

/-! ## The limit -/

/-- The least natural number that rounds to none of the finite numbers. -/
def integerLimit : Nat :=
  2 ^ 1024 - 2 ^ 970

def IsFinite (x : Binary64) : Prop :=
  ∃ negative significand exponent h, x = .finite negative significand exponent h

theorem isSome_ofInt?_iff_isFinite (n : Int) :
    (ofInt? n).isSome ↔ IsFinite (ofRatio (n < 0) n.natAbs 1) := by
  rw [ofInt?]
  cases ofRatio (n < 0) n.natAbs 1 with
  | nan | infinite _ => exact ⟨nofun, fun ⟨_, _, _, _, heq⟩ => absurd heq (by nofun)⟩
  | finite s m e h => exact ⟨fun _ => ⟨s, m, e, h, rfl⟩, fun _ => rfl⟩

theorem isFinite_ofParts {negative : Bool} {significand : Nat} {exponent : Int} :
    IsFinite (ofParts negative significand exponent) ↔ Canonical significand exponent := by
  rw [ofParts]
  split
  · next h => exact ⟨fun _ => h, fun _ => ⟨negative, significand, exponent, h, rfl⟩⟩
  · next h => exact ⟨fun ⟨_, _, _, _, heq⟩ => absurd heq (by nofun), fun hc => absurd hc h⟩

theorem isFinite_ofRatio_one {negative : Bool} {n : Nat} (hn : n ≠ 0) :
    IsFinite (ofRatio negative n 1) ↔
      n.log2 ≤ 1022 ∨ (n.log2 = 1023 ∧ scaledQuotient n 1 971 ≠ 2 ^ 53) := by
  obtain ⟨hlow, hhigh⟩ := scaledQuotient_bounds hn
  simp only [ofRatio, if_neg hn, quotientExponent_one hn, Nat.pow_eq]
  split
  · next hsignificand =>
    rw [isFinite_ofParts, Canonical]
    simp only [Nat.pow_eq]
    constructor
    · intro h
      omega
    · rintro (h | ⟨h, hne⟩)
      · omega
      · rw [h] at hsignificand
        exact absurd hsignificand hne
  · next hsignificand =>
    rw [isFinite_ofParts, Canonical]
    simp only [Nat.pow_eq]
    constructor
    · rintro ⟨-, -, hexponent, -⟩
      by_cases hlog : n.log2 = 1023
      · rw [hlog] at hsignificand
        exact .inr ⟨hlog, hsignificand⟩
      · omega
    · intro h
      omega

theorem isSome_ofInt? (n : Nat) : (ofInt? n).isSome ↔ n < integerLimit := by
  -- all bounds are multiples of the half step
  have htop : 2 ^ 1024 = 2 ^ 54 * 2 ^ 970 := by rw [← pow_add]
  have hlast : 2 ^ 1023 = 2 ^ 53 * 2 ^ 970 := by rw [← pow_add]
  have hstep : scaledQuotient n 1 971 = roundQuotient n (2 * 2 ^ 970) := scaledQuotient_succ n 970
  rw [isSome_ofInt?_iff_isFinite, Int.natAbs_natCast, integerLimit]
  by_cases hn : n = 0
  · subst hn
    refine ⟨fun _ => ?_, fun _ => ⟨_, _, _, _, rfl⟩⟩
    omega
  rw [isFinite_ofRatio_one hn, hstep]
  have hbits (k : Nat) : n.log2 < k ↔ n < 2 ^ k := Nat.log2_lt hn
  rcases Nat.lt_trichotomy n.log2 1023 with hlog | hlog | hlog
  · have hbound := (hbits 1023).mp hlog
    omega
  · -- of the greatest exponent, the last half step is out of reach
    have hhigh := (hbits 1024).mp (by omega)
    have hiff : roundQuotient n (2 * 2 ^ 970) = 2 ^ 53 ↔ 2 ^ 53 * (2 * 2 ^ 970) ≤ n + 2 ^ 970 :=
      roundQuotient_eq_iff (by decide) (by omega)
    omega
  · have hbound := (hbits 1024).not.mp (by omega)
    omega

end SheetIntake.Binary64
