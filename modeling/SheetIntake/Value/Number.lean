import SheetIntake.Value.Basic

/-!
# Numbers among values

Whole numbers and floating point numbers are compared by their exact values.
-/

namespace SheetIntake.Value

def order? : Value → Value → Option Ordering
  | .int a, .int b => some (compare a b)
  | .int a, .float b => (b.compareInt? a).map Ordering.swap
  | .float a, .int b => a.compareInt? b
  | .float a, .float b => a.compare? b
  | _, _ => none

def less (a b : Value) : Bool :=
  order? a b = some .lt

def lessOrEqual (a b : Value) : Bool :=
  order? a b = some .lt || order? a b = some .eq

def isInt (a : Value) (n : Int) : Bool :=
  order? a (.int n) = some .eq

end SheetIntake.Value
