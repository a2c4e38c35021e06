import SheetIntake.Value.Basic

/-!
# When values count as equal

Two relations are in use. `Value.alike` compares numbers by value and counts truth values as zero
and one. `Value.equal` keeps truth values apart from numbers. Both compare objects without regard to
the order of their members, and neither holds of what is not a number.
-/

namespace SheetIntake.Value

def sameNumber : Value → Value → Bool
  | .int a, .int b => a = b
  | .int a, .float b => b.compareInt? a == some .eq
  | .float a, .int b => a.compareInt? b == some .eq
  | .float a, .float b => a.compare? b == some .eq
  | _, _ => false

/-- A truth value as a number; other values stay. -/
def asNumber : Value → Value
  | .bool b => .int (if b then 1 else 0)
  | v => v

mutual

/-- Equality that counts truth values as numbers. -/
def alike : Value → Value → Bool
  | .null, .null => true
  | .str a, .str b => a = b
  | .list a, .list b => alikeItems a b
  | .object a, .object b => a.length == b.length && alikeMembers a b
  | a, b => sameNumber (asNumber a) (asNumber b)

def alikeItems : List Value → List Value → Bool
  | [], [] => true
  | x :: xs, y :: ys => alike x y && alikeItems xs ys
  | _, _ => false

def alikeMembers : List (String × Value) → List (String × Value) → Bool
  | [], _ => true
  | (name, x) :: rest, other =>
    (match Assoc.get? name other with
      | some y => alike x y
      | none => false) && alikeMembers rest other

end

mutual

/-- Equality that keeps truth values apart from numbers. -/
def equal : Value → Value → Bool
  | .null, .null => true
  | .bool a, .bool b => a = b
  | .str a, .str b => a = b
  | .list a, .list b => equalItems a b
  | .object a, .object b => a.length == b.length && equalMembers a b
  | a, b => sameNumber a b

def equalItems : List Value → List Value → Bool
  | [], [] => true
  | x :: xs, y :: ys => equal x y && equalItems xs ys
  | _, _ => false

def equalMembers : List (String × Value) → List (String × Value) → Bool
  | [], _ => true
  | (name, x) :: rest, other =>
    (match Assoc.get? name other with
      | some y => equal x y
      | none => false) && equalMembers rest other

end

/-- Only a text is alike to a text, and only the same one. -/
theorem alike_str {v : Value} {s : String} : v.alike (.str s) = true ↔ v = .str s := by
  cases v <;> simp [alike, sameNumber, asNumber]

end SheetIntake.Value
