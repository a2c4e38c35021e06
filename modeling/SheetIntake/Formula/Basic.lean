import SheetIntake.Value.Access

/-!
# Formulas

A formula is a tree of seven kinds of nodes. It comes from outside as a document, so parts of it may
be absent or of another form. Reading a document never fails: each field is kept with the fault that
its use reports, a node of no known kind is kept as such, and a node that has no kind at all keeps
the fault of looking for one. Faults then come up where the part in question is used.
-/

namespace SheetIntake

/-- A field of a node: its value, or the fault that its use reports. -/
abbrev Field := Except Fault Value

inductive Formula where
  | binary (operator : Field) (left right : Formula)
  | call (name : Field) (arguments : List Formula)
  | range (first last : Formula)
  /-- A cell: its name, and how it is referred to. -/
  | cell (key refKind : Field)
  | number (value : Field)
  | logical (value : Field)
  | text (value : Field)
  | unknown (kind : Value)
  /-- A node whose kind cannot be read. -/
  | unreadable (fault : Fault)
  deriving Inhabited

namespace Formula

/-- The node of an object, from the readings of its members: each as a node and as a sequence. -/
def ofMembers (members : List (String × Value)) (nodes : List (String × Formula × List Formula)) :
    Formula :=
  let field (name : String) : Field := (Value.object members).member name
  let child (name : String) : Formula :=
    match Assoc.get? name nodes with
    | some (node, _) => node
    | none => .unreadable (.missing (.str name))
  match Assoc.get? "type" members with
  | none => .unreadable (.missing (.str "type"))
  | some (.str "binary-expression") => .binary (field "operator") (child "left") (child "right")
  | some (.str "function") =>
    let arguments := match Assoc.get? "arguments" nodes with
      | some (_, sequence) => sequence
      | none => []
    .call (field "name") arguments
  | some (.str "cell-range") => .range (child "left") (child "right")
  | some (.str "cell") => .cell (field "key") (field "refType")
  | some (.str "number") => .number (field "value")
  | some (.str "logical") => .logical (field "value")
  | some (.str "text") => .text (field "value")
  | some kind => .unknown kind

mutual

def ofValue : Value → Formula
  | .object members => ofMembers members (ofEach members)
  | _ => .unreadable .wrongKind

def sequenceOf : Value → List Formula
  | .list items => ofItems items
  | .str s => s.toList.map (fun _ => .unreadable .wrongKind)
  | .object members => members.map (fun _ => .unreadable .wrongKind)
  | _ => [.unreadable .wrongKind]

def ofItems : List Value → List Formula
  | [] => []
  | v :: rest => ofValue v :: ofItems rest

def ofEach : List (String × Value) → List (String × Formula × List Formula)
  | [] => []
  | (name, v) :: rest => (name, ofValue v, sequenceOf v) :: ofEach rest

end

end Formula

end SheetIntake
