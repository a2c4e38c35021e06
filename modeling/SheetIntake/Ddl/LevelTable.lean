/-!
# The order of levels

The levels of a family of columns are collected in a table of slots, and listed slot by slot. The
table starts with eight slots and grows once three fifths of its slots are taken. A level wants the
slot of its remainder by the number of slots; where that is taken, a fixed sequence of other slots
is tried. So small levels are listed in ascending order as long as they are below the number of
slots, and not always otherwise: `2` and `9` are listed as `9, 2`.
-/

namespace SheetIntake

structure LevelTable where
  slots : List (Option Nat)
  deriving DecidableEq, Repr

namespace LevelTable

def free (size : Nat) : LevelTable :=
  { slots := List.replicate size none }

def toList (t : LevelTable) : List Nat :=
  t.slots.filterMap id

/-- The first of `count` neighbouring slots that is free or holds the level. -/
def scan (slots : List (Option Nat)) (level : Nat) : Nat → Nat → Option Nat
  | 0, _ => none
  | count + 1, i =>
    match slots[i]? with
    | some none => some i
    | some (some k) => if k = level then some i else scan slots level count (i + 1)
    | none => none

/-- The slot of a level: neighbours are tried where ten of them follow, and then the next slot of
the sequence, which the level's higher bits stir. -/
def seek (slots : List (Option Nat)) (level : Nat) : Nat → Nat → Nat → Option Nat
  | 0, _, _ => none
  | fuel + 1, i, stir =>
    let count := if i + 10 ≤ slots.length then 10 else 1
    match scan slots level count i with
    | some j => some j
    | none =>
      let stir := stir / 32
      seek slots level fuel ((i * 5 + 1 + stir) % slots.length) stir

def place (t : LevelTable) (level : Nat) : LevelTable :=
  let size := t.slots.length
  match seek t.slots level (2 * size + level) (level % size) level with
  | some i => { slots := t.slots.set i (some level) }
  | none => t

/-- The least size above `bound` that is a doubling of `size`. -/
def doubled (bound : Nat) : Nat → Nat → Nat
  | 0, size => size
  | fuel + 1, size => if size ≤ bound then doubled bound fuel (2 * size) else size

/-- The table with a level, in more slots when three fifths of them are taken. -/
def insert (t : LevelTable) (level : Nat) : LevelTable :=
  let t' := t.place level
  let used := t'.toList.length
  if used = t.toList.length then t
  else if used * 5 < (t'.slots.length - 1) * 3 then t'
  else t'.toList.foldl place (free (doubled (used * 4) (used * 4) 8))

end LevelTable

/-- The distinct levels of a list, in the order of the table that collects them. -/
def levelOrder (levels : List Nat) : List Nat :=
  (levels.foldl LevelTable.insert (LevelTable.free 8)).toList

end SheetIntake
