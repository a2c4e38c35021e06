import SheetIntake.Decimal.Shortest

/-!
# Printed numbers

How a decimal becomes text is a record of choices, `NumberLayout`. Two of them are in use: plain
text, where a whole number keeps a point and a zero, and stored cells, where it does not.
-/

namespace SheetIntake

/-- The choices made when a number is written. -/
structure NumberLayout where
  /-- The least place of the leading digit that is still written without an exponent. -/
  leastPlain : Int
  /-- The place of the leading digit from which on an exponent is written. -/
  firstExponent : Int
  keepsPoint : Bool
  exponentWidth : Nat

/-- Numbers in texts: without an exponent from `0.0001` up to sixteen places before the point. -/
def NumberLayout.text : NumberLayout :=
  { leastPlain := -4, firstExponent := 16, keepsPoint := true, exponentWidth := 2 }

/-- Numbers in stored cells: sixteen significant digits, no point after a whole number. -/
def NumberLayout.stored : NumberLayout :=
  { leastPlain := -4, firstExponent := 16, keepsPoint := false, exponentWidth := 2 }

namespace Decimal

def digitChars (d : Decimal) : List Char :=
  Nat.toDigits 10 d.digits

/-- The place of the leading digit: zero for units, one for tens. -/
def leadingPlace (d : Decimal) : Int :=
  if d.digits = 0 then 0 else d.power + d.digitChars.length - 1

/-- A number of at least `width` digits, filled with zeros in front. -/
def padded (width n : Nat) : List Char :=
  let cs := Nat.toDigits 10 n
  List.replicate (width - cs.length) '0' ++ cs

def plain (layout : NumberLayout) (d : Decimal) : List Char :=
  let cs := d.digitChars
  if 0 ≤ d.power then
    let whole := if d.digits = 0 then cs else cs ++ List.replicate d.power.toNat '0'
    if layout.keepsPoint then whole ++ ['.', '0'] else whole
  else
    let places := (-d.power).toNat
    if places < cs.length then
      cs.take (cs.length - places) ++ '.' :: cs.drop (cs.length - places)
    else '0' :: '.' :: (List.replicate (places - cs.length) '0' ++ cs)

def scientific (layout : NumberLayout) (d : Decimal) : List Char :=
  let cs := d.digitChars
  let place := d.leadingPlace
  let head := match cs with
    | [] => []
    | c :: [] => [c]
    | c :: rest => c :: '.' :: rest
  head ++ 'e' :: (if place < 0 then '-' else '+') :: padded layout.exponentWidth place.natAbs

def render (layout : NumberLayout) (d : Decimal) : List Char :=
  let place := d.leadingPlace
  if layout.leastPlain ≤ place ∧ place < layout.firstExponent then plain layout d
  else scientific layout d

end Decimal

namespace Binary64

def text : Binary64 → String
  | .nan => "nan"
  | .infinite false => "inf"
  | .infinite true => "-inf"
  | .finite negative m e _ =>
    let cs := (Decimal.shortest m e).render .text
    String.ofList (if negative then '-' :: cs else cs)

end Binary64

end SheetIntake
