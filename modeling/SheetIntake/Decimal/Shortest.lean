import SheetIntake.Decimal.Binary64

/-!
# The shortest decimal of a number

A positive finite number is written with the fewest digits that read back as the same number, and
among those with the decimal nearest to it. `Decimal.shortest` looks for such digits on the grids
of one to seventeen digits. A number that no grid shows would be written exactly, so whatever is
returned reads back.
-/

namespace SheetIntake

/-- The decimal `digits · 10 ^ power`. -/
structure Decimal where
  digits : Nat
  power : Int
  deriving DecidableEq, Repr

namespace Decimal

def toBinary64 (negative : Bool) (d : Decimal) : Binary64 :=
  Binary64.ofDecimal negative d.digits d.power

def overPower (num den : Nat) (power : Int) : Nat × Nat :=
  if power < 0 then (num * Nat.pow 10 (-power).toNat, den) else (num, den * Nat.pow 10 power.toNat)

/-- The least power of ten that is above `num / den`, searched upwards from `power`. -/
def leastPowerAbove (num den : Nat) : Nat → Int → Int
  | 0, power => power
  | fuel + 1, power =>
    let (n, d) := overPower num den power
    if n < d then power else leastPowerAbove num den fuel (power + 1)

/-- The power of ten just above a positive fraction, from an estimate by its bits. -/
def powerAbove (num den : Nat) : Int :=
  let bits : Int := (Nat.log2 num : Int) - (Nat.log2 den : Int)
  leastPowerAbove num den 8 (bits * 30103 / 100000 - 1)

/-- The decimals next to `num / den` on the grid `10 ^ power`, the nearer one first; of two equally
near ones the one with even digits first. -/
def neighbours (num den : Nat) (power : Int) : List Decimal :=
  let (n, d) := overPower num den power
  let below := n / d
  let twice := 2 * (n % d)
  if n % d = 0 then [⟨below, power⟩]
  else if twice < d ∨ (twice = d ∧ below % 2 = 0) then [⟨below, power⟩, ⟨below + 1, power⟩]
  else [⟨below + 1, power⟩, ⟨below, power⟩]

/-- The first decimal of at most `count` more digits, from `size` digits on, that reads back as
`x`. -/
def search (x : Binary64) (num den : Nat) (top : Int) : Nat → Nat → Option Decimal
  | 0, _ => none
  | count + 1, size =>
    match (neighbours num den (top - size)).find? (fun d => d.toBinary64 false = x) with
    | some d => some d
    | none => search x num den top count (size + 1)

/-- A dyadic fraction written out in full: `m / 2 ^ k = m · 5 ^ k / 10 ^ k`. -/
def exactly (significand : Nat) (exponent : Int) : Decimal :=
  if exponent < 0 then ⟨significand * Nat.pow 5 (-exponent).toNat, exponent⟩
  else ⟨significand * Nat.pow 2 exponent.toNat, 0⟩

def trim : Nat → Decimal → Decimal
  | 0, d => d
  | fuel + 1, d =>
    if d.digits ≠ 0 ∧ d.digits % 10 = 0 then trim fuel ⟨d.digits / 10, d.power + 1⟩ else d

/-- The shortest decimal that reads back as `significand · 2 ^ exponent`, nearest to it among the
shortest; zero is the decimal without digits. -/
def shortest (significand : Nat) (exponent : Int) : Decimal :=
  if significand = 0 then ⟨0, 0⟩
  else
    let (num, den) := Binary64.magnitude significand exponent
    let x := Binary64.ofParts false significand exponent
    match search x num den (powerAbove num den) 17 1 with
    | some d => trim 20 d
    | none => exactly significand exponent

/-- The decimal of a fraction with `size` significant digits, nearest, ties to even; zeros at the
end are dropped. -/
def rounded (size num den : Nat) : Decimal :=
  if num = 0 then ⟨0, 0⟩
  else
    let power := powerAbove num den - size
    let (n, d) := overPower num den power
    trim 400 ⟨Binary64.roundQuotient n d, power⟩

end Decimal

end SheetIntake
