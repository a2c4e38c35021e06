import SheetIntake.Text.Blank
import SheetIntake.Text.Digit
import SheetIntake.Text.Letter

/-!
# Patterns

A pattern describes texts. It is matched from a place in a text, and what it gives is the set of
places where a match can end; so it does not matter in which order alternatives are tried.

* `Pattern.ends` is that set.
* `Pattern.matchesStart` asks for a match at the start of a text, `Pattern.search` for one anywhere.
-/

namespace SheetIntake

inductive CharItem where
  | one (c : Char)
  | between (first last : Char)
  | digit (negated : Bool)
  | word (negated : Bool)
  | blank (negated : Bool)
  deriving DecidableEq, Repr

namespace CharItem

def isWord (c : Char) : Bool :=
  Text.isLetter c || Text.isNumeral c || c = '_'

def has (c : Char) : CharItem → Bool
  | .one d => c = d
  | .between first last => first.toNat ≤ c.toNat && c.toNat ≤ last.toNat
  | .digit negated => Text.isDecimal c != negated
  | .word negated => isWord c != negated
  | .blank negated => Text.isBlank c != negated

end CharItem

/-- A set of characters: those that some part has, or all others. -/
structure CharSet where
  negated : Bool := false
  items : List CharItem
  deriving DecidableEq, Repr

def CharSet.has (s : CharSet) (c : Char) : Bool :=
  s.items.any (CharItem.has c) != s.negated

inductive Pattern where
  | empty
  | never
  | one (set : CharSet)
  | start
  /-- The end of the text, or a line break that ends it. -/
  | finish
  | textEnd
  /-- A place between a word and something else, or any other place. An empty text has neither. -/
  | wordEdge (negated : Bool)
  | seq (first second : Pattern)
  | alt (first second : Pattern)
  /-- A repetition, at least so often and at most so often. -/
  | times (body : Pattern) (least : Nat) (most : Option Nat)
  /-- A text that follows, or does not, without being taken. -/
  | ahead (negated : Bool) (body : Pattern)
  /-- A text of the given length that stands before, or does not. -/
  | behind (negated : Bool) (length : Nat) (body : Pattern)
  deriving DecidableEq, Repr

/-- A place in a text: the characters before it, the nearest first, and those after it. -/
structure Cursor where
  before : List Char
  after : List Char
  deriving DecidableEq, Repr

namespace Cursor

def back : Nat → Cursor → Option Cursor
  | 0, c => some c
  | n + 1, c =>
    match c.before with
    | [] => none
    | x :: rest => back n { before := rest, after := x :: c.after }

def inEmptyText (c : Cursor) : Bool :=
  c.before.isEmpty && c.after.isEmpty

def atWordEdge (c : Cursor) : Bool :=
  let left := (c.before.head?.map CharItem.isWord).getD false
  let right := (c.after.head?.map CharItem.isWord).getD false
  left != right

/-- The cursors without those at a place that an earlier one is at. -/
def distinct (cs : List Cursor) : List Cursor :=
  cs.foldl (fun seen c =>
    if seen.any (fun d => d.after.length = c.after.length) then seen else seen ++ [c]) []

def exactly (step : Cursor → List Cursor) : Nat → List Cursor → List Cursor
  | 0, cs => cs
  | n + 1, cs => if cs.isEmpty then [] else exactly step n (distinct (cs.flatMap step))

def upTo (step : Cursor → List Cursor) : Nat → List Cursor → List Cursor
  | 0, cs => cs
  | n + 1, cs => distinct (cs ++ upTo step n (distinct (cs.flatMap step)))

end Cursor

namespace Pattern

/-- The cursors at which a match of the pattern can end. Beyond the number of characters left, a
repetition brings no further place. -/
def ends : Pattern → Cursor → List Cursor
  | .empty, c => [c]
  | .never, _ => []
  | .one set, c =>
    match c.after with
    | x :: rest => if set.has x then [{ before := x :: c.before, after := rest }] else []
    | [] => []
  | .start, c => if c.before.isEmpty then [c] else []
  | .finish, c => if c.after.isEmpty || c.after = ['\n'] then [c] else []
  | .textEnd, c => if c.after.isEmpty then [c] else []
  | .wordEdge negated, c => if !c.inEmptyText && c.atWordEdge != negated then [c] else []
  | .seq first second, c => Cursor.distinct ((ends first c).flatMap (fun d => ends second d))
  | .alt first second, c => Cursor.distinct (ends first c ++ ends second c)
  | .times body least most, c =>
    let room := c.after.length + 1
    let more := match most with
      | some m => min (m - least) room
      | none => room
    Cursor.upTo (fun d => ends body d) more (Cursor.exactly (fun d => ends body d) least [c])
  | .ahead negated body, c => if (ends body c).isEmpty != negated then [] else [c]
  | .behind negated length body, c =>
    let found := match c.back length with
      | some d => (ends body d).any (fun e => e.after.length = c.after.length)
      | none => false
    if found != negated then [c] else []

def matchesStart (p : Pattern) (s : String) : Bool :=
  !(p.ends { before := [], after := s.toList }).isEmpty

def searchFrom (p : Pattern) : List Char → List Char → Bool
  | before, [] => !(p.ends { before, after := [] }).isEmpty
  | before, c :: rest =>
    !(p.ends { before, after := c :: rest }).isEmpty || searchFrom p (c :: before) rest

def search (p : Pattern) (s : String) : Bool :=
  searchFrom p [] s.toList

def sequence : List Pattern → Pattern
  | [] => .empty
  | [p] => p
  | p :: rest => .seq p (sequence rest)

/-- The length of all texts that the pattern matches, if they have the same. -/
def width? : Pattern → Option Nat
  | .one _ => some 1
  | .seq first second => do
    let a ← width? first
    let b ← width? second
    return a + b
  | .alt first second => do
    let a ← width? first
    let b ← width? second
    if a = b then some a else none
  | .times body least most => do
    let a ← width? body
    if most = some least then some (a * least) else none
  | _ => some 0

end Pattern

end SheetIntake
