import SheetIntake.Pattern.Basic
import SheetIntake.Text.Hex

/-!
# Written patterns

How patterns are written: alternatives are divided by bars, a set of characters stands in square
brackets, a group in round ones, and a part is repeated by `*`, `+`, `?` or bounds in braces. A
backslash gives a sign another meaning. `Pattern.parse?` gives the pattern of a text; none where the
text is not well formed.
-/

namespace SheetIntake.Pattern

def hexNumber? (cs : List Char) : Option Nat :=
  cs.foldlM (fun n c => (Text.hexValue? c).map (fun d => n * 16 + d)) 0

def hexChar? (count : Nat) (cs : List Char) : Option (Char × List Char) :=
  let digits := cs.take count
  if digits.length = count then
    (hexNumber? digits).bind (fun n =>
      if n < 0x110000 then some (Char.ofNat n, cs.drop count) else none)
  else none

def isOctal (c : Char) : Bool :=
  '0' ≤ c && c ≤ '7'

def octalNumber (cs : List Char) : Nat :=
  cs.foldl (fun n c => n * 8 + (c.toNat - 48)) 0

/-- An escaped part of a set of characters, after its backslash. -/
def escapedItem? : List Char → Option (CharItem × List Char)
  | [] => none
  | 'd' :: rest => some (.digit false, rest)
  | 'D' :: rest => some (.digit true, rest)
  | 'w' :: rest => some (.word false, rest)
  | 'W' :: rest => some (.word true, rest)
  | 's' :: rest => some (.blank false, rest)
  | 'S' :: rest => some (.blank true, rest)
  | 'n' :: rest => some (.one '\n', rest)
  | 't' :: rest => some (.one '\t', rest)
  | 'r' :: rest => some (.one '\r', rest)
  | 'f' :: rest => some (.one (Char.ofNat 12), rest)
  | 'v' :: rest => some (.one (Char.ofNat 11), rest)
  | 'a' :: rest => some (.one (Char.ofNat 7), rest)
  | 'x' :: rest => (hexChar? 2 rest).map (fun r => (.one r.1, r.2))
  | 'u' :: rest => (hexChar? 4 rest).map (fun r => (.one r.1, r.2))
  | 'U' :: rest => (hexChar? 8 rest).map (fun r => (.one r.1, r.2))
  | c :: rest =>
    if c.isAlpha then none
    else if c.isDigit then
      if c = '0' then
        let more := (rest.take 2).takeWhile isOctal
        some (.one (Char.ofNat (octalNumber more)), rest.drop more.length)
      else none
    else some (.one c, rest)

/-- A part of a set of characters in brackets; inside them a backspace has an escape of its own. -/
def setItem? : List Char → Option (CharItem × List Char)
  | [] => none
  | '\\' :: 'b' :: rest => some (.one (Char.ofNat 8), rest)
  | '\\' :: rest => escapedItem? rest
  | c :: rest => some (.one c, rest)

/-- The parts of a set of characters up to its closing bracket, which cannot come first. -/
def setItems? : Nat → Bool → List Char → Option (List CharItem × List Char)
  | 0, _, _ => none
  | _ + 1, _, [] => none
  | fuel + 1, first, c :: rest =>
    if c = ']' && !first then some ([], rest)
    else
      match setItem? (c :: rest) with
      | none => none
      | some (item, rest) =>
        match rest with
        | '-' :: ']' :: rest => some ([item, .one '-'], rest)
        | '-' :: rest =>
          match item, setItem? rest with
          | .one a, some (.one b, rest) =>
            if a.toNat ≤ b.toNat then
              (setItems? fuel false rest).map (fun r => (.between a b :: r.1, r.2))
            else none
          | _, _ => none
        | rest => (setItems? fuel false rest).map (fun r => (item :: r.1, r.2))

def set? (cs : List Char) : Option (CharSet × List Char) :=
  let (negated, cs) := match cs with
    | '^' :: rest => (true, rest)
    | cs => (false, cs)
  (setItems? (cs.length + 1) true cs).map (fun r => ({ negated, items := r.1 }, r.2))

/-- The bounds of a repetition: at least, and at most. -/
abbrev Bounds := Nat × Option Nat

/-- The bounds in braces, after the opening one; none where they are not bounds and the brace stands
for itself. -/
def bounds? (cs : List Char) : Option (Option Nat × Option Nat × Bool × List Char) :=
  let low := cs.takeWhile Char.isDigit
  let cs := cs.drop low.length
  let (comma, cs) := match cs with
    | ',' :: rest => (true, rest)
    | cs => (false, cs)
  let high := if comma then cs.takeWhile Char.isDigit else []
  let cs := cs.drop high.length
  let number (ds : List Char) : Option Nat :=
    if ds.isEmpty then none else (String.ofList ds).toNat?
  match cs with
  | '\x7d' :: rest => some (number low, number high, comma, rest)
  | _ => none

/-- The repetition that stands next, if one does; the outer level is none for bounds that are the
wrong way round. -/
def repetition? : List Char → Option (Option Bounds × List Char)
  | '*' :: rest => some (some (0, none), rest)
  | '+' :: rest => some (some (1, none), rest)
  | '?' :: rest => some (some (0, some 1), rest)
  | '\x7b' :: '\x7d' :: rest => some (none, '\x7b' :: '\x7d' :: rest)
  | '\x7b' :: rest =>
    match bounds? rest with
    | none => some (none, '\x7b' :: rest)
    | some (low, high, comma, rest) =>
      let least := low.getD 0
      let most := if comma then high else low
      match most with
      | some m => if m < least then none else some (some (least, some m), rest)
      | none => some (some (least, none), rest)
  | cs => some (none, cs)

/-- Whether a written pattern begins with the sign of a place, which cannot be repeated. -/
def beginsWithPlace : List Char → Bool
  | '^' :: _ => true
  | '$' :: _ => true
  | '\\' :: c :: _ => c = 'A' || c = 'Z' || c = 'b' || c = 'B'
  | _ => false

/-- The repeated part, with an optional sign for how eager the repetition is. -/
def repeated? (p : Pattern) (place : Bool) (cs : List Char) : Option (Pattern × List Char) :=
  match repetition? cs with
  | none => none
  | some (none, cs) => some (p, cs)
  | some (some (least, most), cs) =>
    let cs := match cs with
      | '?' :: rest => rest
      | '+' :: rest => rest
      | cs => cs
    let again := match repetition? cs with
      | some (none, _) => false
      | _ => true
    if place || again then none else some (.times p least most, cs)

def groupName? (cs : List Char) : Option (List Char) :=
  let name := cs.takeWhile (fun c => c ≠ '>')
  match name, cs.drop name.length with
  | c :: _, '>' :: rest =>
    if c.isDigit || !name.all CharItem.isWord then none else some rest
  | _, _ => none

inductive Group where
  | plain
  | ahead (negated : Bool)
  | behind (negated : Bool)

def group? : List Char → Option (Group × List Char)
  | '?' :: ':' :: rest => some (.plain, rest)
  | '?' :: '=' :: rest => some (.ahead false, rest)
  | '?' :: '!' :: rest => some (.ahead true, rest)
  | '?' :: '<' :: '=' :: rest => some (.behind false, rest)
  | '?' :: '<' :: '!' :: rest => some (.behind true, rest)
  | '?' :: 'P' :: '<' :: rest => (groupName? rest).map (fun rest => (.plain, rest))
  | '?' :: _ => none
  | cs => some (.plain, cs)

def grouped? (g : Group) (p : Pattern) : Option Pattern :=
  match g with
  | .plain => some p
  | .ahead negated => some (.ahead negated p)
  | .behind negated => p.width?.map (fun n => .behind negated n p)

def escaped? : List Char → Option (Pattern × List Char)
  | 'A' :: rest => some (.start, rest)
  | 'Z' :: rest => some (.textEnd, rest)
  | 'b' :: rest => some (.wordEdge false, rest)
  | 'B' :: rest => some (.wordEdge true, rest)
  | cs => (escapedItem? cs).map (fun r => (.one { items := [r.1] }, r.2))

/-- The three levels of a written pattern: alternatives, sequences and single parts. -/
inductive Level where
  | alternatives
  | sequence
  | part

/-- Reads a level of a written pattern, and gives what follows it. -/
def read? : Nat → Level → List Char → Option (Pattern × List Char)
  | 0, _, _ => none
  | fuel + 1, .alternatives, cs => do
    let (p, cs) ← read? fuel .sequence cs
    match cs with
    | '|' :: rest => do
      let (q, cs) ← read? fuel .alternatives rest
      return (.alt p q, cs)
    | cs => return (p, cs)
  | fuel + 1, .sequence, cs =>
    match cs with
    | [] => some (.empty, [])
    | '|' :: rest => some (.empty, '|' :: rest)
    | ')' :: rest => some (.empty, ')' :: rest)
    | cs => do
      let place := beginsWithPlace cs
      let (p, cs) ← read? fuel .part cs
      let (p, cs) ← repeated? p place cs
      let (q, cs) ← read? fuel .sequence cs
      return (match q with
        | .empty => p
        | q => .seq p q, cs)
  | fuel + 1, .part, cs =>
    match cs with
    | [] => none
    | '(' :: '?' :: '#' :: rest =>
      match rest.dropWhile (fun c => c ≠ ')') with
      | ')' :: rest => some (.empty, rest)
      | _ => none
    | '(' :: rest => do
      let (g, cs) ← group? rest
      let (p, cs) ← read? fuel .alternatives cs
      let p ← grouped? g p
      match cs with
      | ')' :: rest => return (p, rest)
      | _ => none
    | '[' :: rest => (set? rest).map (fun r => (.one r.1, r.2))
    | '.' :: rest => some (.one { negated := true, items := [.one '\n'] }, rest)
    | '^' :: rest => some (.start, rest)
    | '$' :: rest => some (.finish, rest)
    | '\\' :: rest => escaped? rest
    | '*' :: _ => none
    | '+' :: _ => none
    | '?' :: _ => none
    | '\x7b' :: rest =>
      match repetition? ('\x7b' :: rest) with
      | some (none, _) => some (.one { items := [.one '\x7b'] }, rest)
      | _ => none
    | c :: rest => some (.one { items := [.one c] }, rest)

def parse? (s : String) : Option Pattern :=
  let cs := s.toList
  match read? (4 * cs.length + 4) .alternatives cs with
  | some (p, []) => some p
  | _ => none

end SheetIntake.Pattern
