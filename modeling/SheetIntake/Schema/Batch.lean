import SheetIntake.Schema.Validation

/-!
# Batches

A list of items is validated in chunks, one for each worker. Every chunk numbers its errors from
zero, and the numbers are shifted when the results of all chunks are put together. A worker may
finish at any time; results are put into the order of their chunks first.
-/

namespace SheetIntake.Schema

structure ItemError where
  position : Nat
  reason : String
  deriving DecidableEq, Repr

namespace ItemError

def label (position : Nat) : String :=
  "Item " ++ toString position ++ ":"

def text (e : ItemError) : String :=
  label e.position ++ " " ++ e.reason

/-- The text of the error in a list where the chunk begins at an offset: every label of the item in
the text is replaced. -/
def shifted (offset : Nat) (e : ItemError) : String :=
  Text.replaceAll e.text (label e.position) (label (offset + e.position))

end ItemError

def unexpected (fault : Fault) : String :=
  "Unexpected error - " ++ fault.message

/-- Why an item does not pass under a schema whose check has the given result. -/
def itemReason? (admission : Except Fault Draft) (schema item : Value) : Option String :=
  match admission with
  | .error fault => some (unexpected fault)
  | .ok draft =>
    match validateAdmitted draft schema item with
    | .ok reason => reason
    | .error fault => some (unexpected fault)

def chunkErrors (schema : Value) (items : List Value) : List ItemError :=
  let admission := admitted schema
  items.zipIdx.filterMap (fun p =>
    (itemReason? admission schema p.1).map (fun reason => { position := p.2, reason }))

def chunksOf {α : Type} (size : Nat) : Nat → List α → List (List α)
  | 0, _ => []
  | _ + 1, [] => []
  | fuel + 1, items => items.take size :: chunksOf size fuel (items.drop size)

/-- How long the chunks are: the items are divided among the workers, with at least one for each. -/
def chunkSize (count : Nat) (workers : Int) : Nat :=
  max 1 (Int.fdiv count workers).toNat

def chunks {α : Type} (items : List α) (workers : Int) : List (List α) :=
  chunksOf (chunkSize items.length workers) items.length items

/-- The result of a worker: which chunk, how long it is, and its errors. -/
structure ChunkResult where
  index : Nat
  size : Nat
  errors : List ItemError

structure BatchReport where
  isValid : Bool
  total : Nat
  valid : Nat
  invalid : Nat
  errors : List String
  deriving DecidableEq, Repr

def errorLimit : Nat :=
  50

/-- The texts of all errors, for results in the order of their chunks from an offset on. -/
def shiftedErrors : Nat → List ChunkResult → List String
  | _, [] => []
  | offset, r :: rest =>
    r.errors.map (ItemError.shifted offset) ++ shiftedErrors (offset + r.size) rest

def itemCount : List ChunkResult → Nat
  | [] => 0
  | r :: rest => r.size + itemCount rest

def validCount : List ChunkResult → Nat
  | [] => 0
  | r :: rest => (r.size - r.errors.length) + validCount rest

/-- Puts the results of the workers together, whichever came first. -/
def combine (results : List ChunkResult) : BatchReport :=
  let results := results.mergeSort (fun a b => a.index ≤ b.index)
  let errors := shiftedErrors 0 results
  let total := itemCount results
  let valid := validCount results
  { isValid := errors.isEmpty, total, valid, invalid := total - valid,
    errors := errors.take errorLimit }

def chunkResults (schema : Value) (chunks : List (List Value)) : List ChunkResult :=
  chunks.zipIdx.map (fun p =>
    { index := p.2, size := p.1.length, errors := chunkErrors schema p.1 })

def validateBatch (items : List Value) (schema : Value) (workers : Int) :
    Except Fault BatchReport :=
  if items.isEmpty then
    .ok { isValid := true, total := 0, valid := 0, invalid := 0, errors := [] }
  else if workers = 0 then .error .divisionByZero
  else .ok (combine (chunkResults schema (chunks items workers)))

def BatchReport.members (r : BatchReport) : List (String × Value) :=
  [("is_valid", .bool r.isValid), ("total_items", .int r.total), ("valid_items", .int r.valid),
    ("invalid_items", .int r.invalid), ("errors", .list (r.errors.map .str))]

end SheetIntake.Schema
