import SheetIntake.Plan
import SheetIntake.Value.Alike

/-!
# The store of schema documents

The registry keeps documents in the order in which they were inserted. A filter asks for members
with given values; a value counts when it is alike. Each request is one atomic step, and a request
that fails changes nothing.
-/

namespace SheetIntake.Registry

abbrev Document : Type := List (String × Value)

def accepts (filter : Document) (document : Document) : Bool :=
  filter.all (fun m =>
    match Assoc.get? m.1 document with
    | some v => v.alike m.2
    | none => false)

/-- What an update does to a document: members that are set, values that are put at the end of a
list, and lists that lose their last value. -/
structure Change where
  set : List (String × Value) := []
  push : List (String × Value) := []
  pop : List String := []

namespace Change

def pushed (document : Document) (name : String) (v : Value) : Except Fault Document :=
  match Assoc.get? name document with
  | none => .ok (Assoc.put name (.list [v]) document)
  | some (.list items) => .ok (Assoc.put name (.list (items ++ [v])) document)
  | some other => .error (.noSuchOperation other.kindName "append")

def popped (document : Document) (name : String) : Document :=
  match Assoc.get? name document with
  | some (.list items) => Assoc.put name (.list items.dropLast) document
  | _ => document

def apply (c : Change) (document : Document) : Except Fault Document := do
  let document := Assoc.merge document c.set
  let document ← c.push.foldlM (fun d m => pushed d m.1 m.2) document
  return c.pop.foldl popped document

end Change

structure UpdateResult where
  matched : Bool
  modified : Bool
  deriving DecidableEq, Repr

namespace UpdateResult

def members (r : UpdateResult) : List (String × Value) :=
  [("n", .int r.matched.toNat), ("nModified", .int r.modified.toNat),
    ("ok", .float (Binary64.ofRatio false 1 1)), ("updatedExisting", .bool r.matched)]

end UpdateResult

inductive Request where
  | findFirst (filter : Document)
  | find (filter : Document)
  | count (filter : Document)
  | insert (document : Document)
  | update (filter : Document) (change : Change)

def Request.Answer : Request → Type
  | .findFirst _ => Option Document
  | .find _ => List Document
  | .count _ => Nat
  | .insert _ => Unit
  | .update _ _ => UpdateResult

abbrev protocol : Protocol :=
  { Request := Request, Answer := Request.Answer }

def findFirst (filter : Document) : Job protocol (Option Document) :=
  Job.ask (p := protocol) (.findFirst filter)

def find (filter : Document) : Job protocol (List Document) :=
  Job.ask (p := protocol) (.find filter)

def count (filter : Document) : Job protocol Nat :=
  Job.ask (p := protocol) (.count filter)

def insert (document : Document) : Job protocol Unit :=
  Job.ask (p := protocol) (.insert document)

def update (filter : Document) (change : Change) : Job protocol UpdateResult :=
  Job.ask (p := protocol) (.update filter change)

structure Store where
  documents : List Document := []
  reachable : Bool := true

namespace Store

def document (s : Store) : Value :=
  .list (s.documents.map .object)

/-- The documents after an update of the first one that a filter accepts. -/
def updateFirst (filter : Document) (change : Change) :
    List Document → Except Fault (UpdateResult × List Document)
  | [] => .ok ({ matched := false, modified := false }, [])
  | d :: rest =>
    if accepts filter d then do
      let changed ← change.apply d
      let modified := !(Value.object d).alike (.object changed)
      return ({ matched := true, modified }, changed :: rest)
    else do
      let (result, rest) ← updateFirst filter change rest
      return (result, d :: rest)

def respond (s : Store) : (request : Request) → Except Fault request.Answer × Store
  | .findFirst filter => (.ok (s.documents.find? (accepts filter)), s)
  | .find filter => (.ok (s.documents.filter (accepts filter)), s)
  | .count filter => (.ok (s.documents.filter (accepts filter)).length, s)
  | .insert document => (.ok (), { s with documents := s.documents ++ [document] })
  | .update filter change =>
    match updateFirst filter change s.documents with
    | .ok (result, documents) => (.ok result, { s with documents })
    | .error fault => (.error fault, s)

end Store

def servers : Servers protocol Store := fun request s =>
  if s.reachable then s.respond request else (.error .registryUnreachable, s)

end SheetIntake.Registry
