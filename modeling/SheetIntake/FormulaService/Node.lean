import SheetIntake.Fault

/-!
# Answers of the formula service

The service answers a formula with a tree of messages. A message has a number for its kind and a
field for everything that any kind needs; fields that a message leaves out have a default, and a
child that it leaves out is an empty message.

`Message.document` is the formula of a message as a document. It exists exactly when every node that
it visits is of a known kind.
-/

namespace SheetIntake.FormulaService

inductive Message where
  /-- The message without any field. -/
  | empty
  | node (kind : Int) (operator : String) (left right : Message) (name : String)
      (arguments : List Message) (refKind : Int) (key : String) (number : Binary64)
      (logical : Bool) (text : String)
  deriving Inhabited

def kindName? : Int → Option String
  | 1 => some "binary-expression"
  | 2 => some "cell-range"
  | 3 => some "function"
  | 4 => some "cell"
  | 5 => some "number"
  | 6 => some "logical"
  | 7 => some "text"
  | _ => none

def refKindName? : Int → Option String
  | 1 => some "relative"
  | 2 => some "absolute"
  | 3 => some "mixed"
  | _ => none

namespace Message

/-- The member of an object as an integer, zero by default. -/
def intField (members : List (String × Value)) (name : String) : Int :=
  match Assoc.get? name members with
  | some (.int n) => n
  | _ => 0

/-- The member of an object as a text, empty by default. -/
def textField (members : List (String × Value)) (name : String) : String :=
  match Assoc.get? name members with
  | some (.str s) => s
  | _ => ""

def numberField (members : List (String × Value)) (name : String) : Binary64 :=
  match Assoc.get? name members with
  | some (.float x) => x
  | some (.int n) => (Binary64.ofInt? n).getD (.infinite (n < 0))
  | _ => .zero false

def logicalField (members : List (String × Value)) (name : String) : Bool :=
  match Assoc.get? name members with
  | some (.bool b) => b
  | _ => false

/-- The message of an object, from the readings of its members: each as a message and as a
sequence of messages. -/
def ofMembers (members : List (String × Value))
    (messages : List (String × Message × List Message)) : Message :=
  let child (name : String) : Message := ((Assoc.get? name messages).map Prod.fst).getD .empty
  let children (name : String) : List Message :=
    ((Assoc.get? name messages).map Prod.snd).getD []
  .node (intField members "type") (textField members "operator") (child "left") (child "right")
    (textField members "name") (children "arguments") (intField members "refType")
    (textField members "key") (numberField members "number_value")
    (logicalField members "logical_value") (textField members "text_value")

mutual

def ofValue : Value → Message
  | .object members => ofMembers members (ofEach members)
  | _ => .empty

def sequenceOf : Value → List Message
  | .list items => ofItems items
  | _ => []

def ofItems : List Value → List Message
  | [] => []
  | v :: rest => ofValue v :: ofItems rest

def ofEach : List (String × Value) → List (String × Message × List Message)
  | [] => []
  | (name, v) :: rest => (name, ofValue v, sequenceOf v) :: ofEach rest

end

mutual

/-- The formula of a message as a document. A cell keeps the number of its way to refer only where
that number is unknown. -/
def document : Message → Except Fault Value
  | .empty => .error (.unknownNode 0)
  | .node kind operator left right name arguments refKind key number logical text =>
    match kind with
    | 1 => do
      let left ← document left
      let right ← document right
      return .object [("type", .str "binary-expression"), ("operator", .str operator),
        ("left", left), ("right", right)]
    | 2 => do
      let left ← document left
      let right ← document right
      return .object [("type", .str "cell-range"), ("left", left), ("right", right)]
    | 3 => do
      let arguments ← documents arguments
      return .object [("type", .str "function"), ("name", .str name),
        ("arguments", .list arguments)]
    | 4 =>
      let extra := match refKindName? refKind with
        | some _ => []
        | none => [("refType", Value.int refKind)]
      .ok (.object ([("type", .str "cell"), ("key", .str key)] ++ extra))
    | 5 => .ok (.object [("type", .str "number"), ("value", .float number)])
    | 6 => .ok (.object [("type", .str "logical"), ("value", .bool logical)])
    | 7 => .ok (.object [("type", .str "text"), ("value", .str text)])
    | kind => .error (.unknownNode kind)

def documents : List Message → Except Fault (List Value)
  | [] => .ok []
  | m :: rest => do
    let v ← document m
    let vs ← documents rest
    return v :: vs

end

end Message

end SheetIntake.FormulaService
