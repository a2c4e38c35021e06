import SheetIntake.Fault

/-!
# Findings

A finding is one reason why a value does not satisfy a schema. It knows where in the value it was
made, by which keyword, and whether the value there has the type that the schema asks for. A finding
that no alternative was accepted keeps the findings of the alternatives.

`best?` selects the finding to report: one that is made as far up as possible, and among those for
alternatives the one that goes deepest.
-/

namespace SheetIntake.Schema

inductive Step where
  | name (s : String)
  | index (n : Nat)
  deriving DecidableEq, Repr

inductive Finding where
  | mk (message : String) (path : List Step) (keyword : String) (typeMatches : Bool)
      (context : List Finding)
  deriving Inhabited

namespace Finding

def message : Finding → String
  | .mk message _ _ _ _ => message

def path : Finding → List Step
  | .mk _ path _ _ _ => path

def keyword : Finding → String
  | .mk _ _ keyword _ _ => keyword

/-- Whether the part to blame has a type that its schema asks for. -/
def typeMatches : Finding → Bool
  | .mk _ _ _ typeMatches _ => typeMatches

def context : Finding → List Finding
  | .mk _ _ _ _ context => context

/-- The finding seen from one step further up. -/
def under (step : Step) : Finding → Finding
  | .mk message path keyword typeMatches context =>
    .mk message (step :: path) keyword typeMatches context

end Finding

def Step.order : Step → Step → Ordering
  | .name a, .name b => compare a b
  | .index a, .index b => compare a b
  | .index _, .name _ => .lt
  | .name _, .index _ => .gt

def pathOrder : List Step → List Step → Ordering
  | [], [] => .eq
  | [], _ :: _ => .lt
  | _ :: _, [] => .gt
  | a :: as, b :: bs => (a.order b).then (pathOrder as bs)

/-- How relevant one finding is beside another. The shorter path is more relevant, then the greater
one; findings about alternatives are less relevant than others, and so are those whose type
matches. -/
def relevanceOrder (a b : Finding) : Ordering :=
  let strong (f : Finding) : Nat := if f.keyword = "anyOf" ∨ f.keyword = "oneOf" then 0 else 1
  let wrongType (f : Finding) : Nat := if f.typeMatches then 0 else 1
  (compare b.path.length a.path.length).then <|
    (pathOrder a.path b.path).then <|
      (compare (strong a) (strong b)).then (compare (wrongType a) (wrongType b))

def mostRelevant? : List Finding → Option Finding
  | [] => none
  | f :: rest => some (rest.foldl (fun best g => if relevanceOrder best g = .lt then g else best) f)

/-- The two least relevant findings, the first of equals first. -/
def leastRelevant (fs : List Finding) : List Finding :=
  (fs.mergeSort (fun a b => relevanceOrder a b ≠ .gt)).take 2

/-- Goes down into the findings of alternatives as long as one of them is least relevant. -/
def deepen : Nat → Finding → Finding
  | 0, f => f
  | fuel + 1, f =>
    match leastRelevant f.context with
    | [] => f
    | [g] => deepen fuel g
    | g :: h :: _ => if relevanceOrder g h = .eq then f else deepen fuel g

mutual

/-- How deep findings of alternatives are nested. -/
def depth : Finding → Nat
  | .mk _ _ _ _ context => depthOfAll context + 1

def depthOfAll : List Finding → Nat
  | [] => 0
  | f :: rest => max (depth f) (depthOfAll rest)

end

def best? (fs : List Finding) : Option Finding :=
  (mostRelevant? fs).map (fun f => deepen (depth f) f)

/-- Findings in the order in which they are made. A fault ends the search for more. -/
structure Findings where
  found : List Finding
  fault : Option Fault

namespace Findings

def clean : Findings :=
  { found := [], fault := none }

def one (f : Finding) : Findings :=
  { found := [f], fault := none }

def failed (fault : Fault) : Findings :=
  { found := [], fault := some fault }

def each {α : Type} (f : α → Findings) : List α → Findings
  | [] => clean
  | a :: rest =>
    let first := f a
    match first.fault with
    | some _ => first
    | none =>
      let others := each f rest
      { found := first.found ++ others.found, fault := others.fault }

/-- The findings seen from one step further up. -/
def under (step : Step) (fs : Findings) : Findings :=
  { fs with found := fs.found.map (Finding.under step) }

/-- Whether nothing was found. A fault counts only if it comes before any finding. -/
def isClean (fs : Findings) : Except Fault Bool :=
  match fs.found, fs.fault with
  | _ :: _, _ => .ok false
  | [], some fault => .error fault
  | [], none => .ok true

def complete (fs : Findings) : Except Fault (List Finding) :=
  match fs.fault with
  | some fault => .error fault
  | none => .ok fs.found

def ofExcept : Except Fault Findings → Findings
  | .ok fs => fs
  | .error fault => failed fault

end Findings

end SheetIntake.Schema
