/-!
# Sets of characters

A property of characters is kept as a list of ranges of code points, both ends included.
-/

namespace SheetIntake.Text

/-- The ranges from a code point on. The table tells in turn how many code points are passed over
and how many are in the next range. -/
def rangesFrom (start : Nat) : List Nat → List (Nat × Nat)
  | gap :: length :: rest =>
    (start + gap, start + gap + length - 1) :: rangesFrom (start + gap + length) rest
  | _ => []

def inRanges (ranges : List (Nat × Nat)) (n : Nat) : Bool :=
  ranges.any (fun r => r.1 ≤ n && n ≤ r.2)

end SheetIntake.Text
