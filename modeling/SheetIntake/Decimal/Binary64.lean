/-!
# Binary floating point numbers of 64 bits

A number is not a number, an infinity, or a sign with a significand and a power of two. The
significand and the exponent of a finite number are kept in the one canonical form, so that two
equal values of the type are the same number with the same sign.

* `Binary64.ofRatio` rounds a quotient of natural numbers to the nearest number, ties to even.
* `Binary64.ofDecimal` does the same for a decimal.
* `Binary64.compare?` orders two numbers by their exact values.
-/

namespace SheetIntake

/-- The form of a finite number: a significand of at most 53 bits, and the full 53 bits unless the
exponent is the least one. -/
def Binary64.Canonical (significand : Nat) (exponent : Int) : Prop :=
  significand < Nat.pow 2 53 ∧ -1074 ≤ exponent ∧ exponent ≤ 971 ∧
    (Nat.pow 2 52 ≤ significand ∨ exponent = -1074)

instance (significand : Nat) (exponent : Int) :
    Decidable (Binary64.Canonical significand exponent) := by
  unfold Binary64.Canonical
  infer_instance

inductive Binary64 where
  | nan
  | infinite (negative : Bool)
  | finite (negative : Bool) (significand : Nat) (exponent : Int)
      (canonical : Binary64.Canonical significand exponent)
  deriving DecidableEq

namespace Binary64

def zero (negative : Bool) : Binary64 :=
  .finite negative 0 (-1074) (by decide)

instance : Inhabited Binary64 := ⟨zero false⟩

/-- The number `± significand · 2 ^ exponent`, infinite where that form is not canonical. -/
def ofParts (negative : Bool) (significand : Nat) (exponent : Int) : Binary64 :=
  if h : Canonical significand exponent then .finite negative significand exponent h
  else .infinite negative

/-- The quotient of `num` by `den`, rounded to the nearest natural number, a tie to the even one. -/
def roundQuotient (num den : Nat) : Nat :=
  let quotient := num / den
  let twice := 2 * (num % den)
  if twice < den then quotient
  else if den < twice then quotient + 1
  else if quotient % 2 = 0 then quotient else quotient + 1

/-- `num / den · 2 ^ (- exponent)` rounded to a natural number. -/
def scaledQuotient (num den : Nat) (exponent : Int) : Nat :=
  if exponent < 0 then roundQuotient (num * Nat.pow 2 (-exponent).toNat) den
  else roundQuotient num (den * Nat.pow 2 exponent.toNat)

def belowPower (num den : Nat) (power : Int) : Bool :=
  if power < 0 then num * Nat.pow 2 (-power).toNat < den else num < den * Nat.pow 2 power.toNat

/-- The exponent at which the quotient has 53 bits before the point, the least exponent at least. -/
def quotientExponent (num den : Nat) : Int :=
  let guess : Int := (Nat.log2 num : Int) - (Nat.log2 den : Int) - 52
  let exponent := if belowPower num den (guess + 52) then guess - 1 else guess
  max exponent (-1074)

/-- The number nearest to `num / den`, ties to even, infinite beyond the greatest finite one. -/
def ofRatio (negative : Bool) (num den : Nat) : Binary64 :=
  if num = 0 then zero negative
  else
    let exponent := quotientExponent num den
    let significand := scaledQuotient num den exponent
    if significand = Nat.pow 2 53 then ofParts negative (Nat.pow 2 52) (exponent + 1)
    else ofParts negative significand exponent

def digitCount (n : Nat) : Nat :=
  (Nat.toDigits 10 n).length

/-- The number nearest to `± digits · 10 ^ power`. Magnitudes far outside the range are decided by
the count of digits alone, so that no large power is computed for them. -/
def ofDecimal (negative : Bool) (digits : Nat) (power : Int) : Binary64 :=
  if digits = 0 then zero negative
  else
    let magnitude := power + digitCount digits
    if magnitude > 400 then .infinite negative
    else if magnitude < -400 then zero negative
    else if power < 0 then ofRatio negative digits (Nat.pow 10 (-power).toNat)
    else ofRatio negative (digits * Nat.pow 10 power.toNat) 1

/-- The number nearest to an integer; none when the integer is beyond all finite numbers. -/
def ofInt? (n : Int) : Option Binary64 :=
  match ofRatio (n < 0) n.natAbs 1 with
  | .finite s m e h => some (.finite s m e h)
  | _ => none

/-- The numerator and denominator of a finite number's magnitude. -/
def magnitude (significand : Nat) (exponent : Int) : Nat × Nat :=
  if exponent < 0 then (significand, Nat.pow 2 (-exponent).toNat)
  else (significand * Nat.pow 2 exponent.toNat, 1)

/-- The exact value of a finite number, as an integer over a positive natural number. -/
def fraction? : Binary64 → Option (Int × Nat)
  | .finite negative m e _ =>
    let (num, den) := magnitude m e
    some (if negative then (-(num : Int), den) else ((num : Int), den))
  | _ => none

/-- The order of two exact fractions with positive denominators. -/
def compareFractions (a b : Int × Nat) : Ordering :=
  compare (a.1 * b.2) (b.1 * a.2)

/-- The order of two numbers by value; none when either is not a number. -/
def compare? : Binary64 → Binary64 → Option Ordering
  | .nan, _ => none
  | _, .nan => none
  | .infinite a, .infinite b => some (compare b.toNat a.toNat)
  | .infinite a, _ => some (if a then .lt else .gt)
  | _, .infinite b => some (if b then .gt else .lt)
  | .finite s m e h, .finite t n f k =>
    match fraction? (.finite s m e h), fraction? (.finite t n f k) with
    | some a, some b => some (compareFractions a b)
    | _, _ => none

/-- The order of a number and an integer by value; none when the number is not one. -/
def compareInt? (x : Binary64) (n : Int) : Option Ordering :=
  match x with
  | .nan => none
  | .infinite negative => some (if negative then .lt else .gt)
  | .finite s m e h => (fraction? (.finite s m e h)).map (fun a => compareFractions a (n, 1))

def isInteger (x : Binary64) : Bool :=
  match fraction? x with
  | some (num, den) => num % (den : Int) = 0
  | none => false

/-- The quotient of two finite numbers, rounded; none when the divisor is zero or either number is
not finite. -/
def divide? (x y : Binary64) : Option Binary64 :=
  match fraction? x, fraction? y with
  | some (a, b), some (c, d) =>
    if c = 0 then none
    else some (ofRatio (decide (a < 0) != decide (c < 0)) (a.natAbs * d) (b * c.natAbs))
  | _, _ => none

end Binary64

end SheetIntake
