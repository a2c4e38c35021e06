import SheetIntake.Ddl.Definition

/-!
# Dependencies between columns

The graph of a family of definitions has an edge from a column to every column that its definition
refers to. A range that names a column twice gives two edges.

* `DependencyGraph.ofColumns` fails on a reference to a column that is not in the family.
* `DependencyGraph.isAcyclic` holds when no column depends on itself through any chain of edges.
-/

namespace SheetIntake

structure Column where
  name : String
  definition : Definition
  sql : Field

namespace Column

def ofMember (m : String × Value) : Column :=
  { name := m.1, definition := Definition.ofValue m.2, sql := m.2.member "sql" }

def ofValue : Value → Except Fault (List Column)
  | .object members => .ok (members.map ofMember)
  | v => .error (.noSuchOperation v.kindName "keys")

end Column

/-- The columns of a family and who refers to whom. -/
structure DependencyGraph where
  names : List String
  edges : List (String × String)
  deriving DecidableEq

namespace DependencyGraph

/-- The edge from a column to one that it names, if there is a column of that name. -/
def edge (names : List String) (source : String) (target : Value) :
    Except Fault (String × String) :=
  match target with
  | .str name => if name ∈ names then .ok (source, name) else .error (.unknownColumn target)
  | _ => .error (.unknownColumn target)

def edgesOf (names : List String) (column : Column) : Except Fault (List (String × String)) := do
  let targets ← column.definition.columns
  if column.definition.isConstant then return []
  let targets ← targets.elements
  targets.mapM (edge names column.name)

def ofColumns (columns : List Column) : Except Fault DependencyGraph := do
  let names := columns.map Column.name
  let edges ← columns.mapM (edgesOf names)
  return { names, edges := edges.flatten }

def outgoing (g : DependencyGraph) (name : String) : Nat :=
  g.edges.countP (fun e => e.1 = name)

def incoming (g : DependencyGraph) (name : String) : Nat :=
  g.edges.countP (fun e => e.2 = name)

/-- How many edges lead from every column to every column, row by row. -/
def adjacency (g : DependencyGraph) : List (List Nat) :=
  g.names.map (fun a => g.names.map (fun b => g.edges.countP (fun e => e = (a, b))))

/-- Those of the given columns that refer to one of them. -/
def referring (g : DependencyGraph) (names : List String) : List String :=
  names.filter (fun a => g.edges.any (fun e => e.1 = a ∧ e.2 ∈ names))

/-- What is left of the given columns after dropping, so many times, those that refer to none of the
others left. -/
def peel (g : DependencyGraph) : Nat → List String → List String
  | 0, names => names
  | rounds + 1, names => peel g rounds (g.referring names)

/-- Whether no chain of edges comes back to where it starts: peeling then leaves nothing. -/
def isAcyclic (g : DependencyGraph) : Bool :=
  (g.peel g.names.length g.names).isEmpty

end DependencyGraph

end SheetIntake
