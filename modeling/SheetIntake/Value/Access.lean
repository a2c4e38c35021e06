import SheetIntake.Fault

/-!
# Reading members of values

Documents come from outside, so a member may be absent and a value may be of the wrong kind. Each
operation here reports that as a fault.
-/

namespace SheetIntake.Value

/-- A member of an object: absent members are missing, other values have no members. -/
def member (v : Value) (name : String) : Except Fault Value :=
  match v with
  | .object members =>
    match Assoc.get? name members with
    | some w => .ok w
    | none => .error (.missing (.str name))
  | _ => .error .wrongKind

def memberOr (v : Value) (name : String) (default : Value) : Except Fault Value :=
  match v with
  | .object members => .ok ((Assoc.get? name members).getD default)
  | v => .error (.noSuchOperation v.kindName "get")

/-- What a value holds when it is gone through: the items of a list, the characters of a text, the
names of an object's members. -/
def elements : Value → Except Fault (List Value)
  | .list items => .ok items
  | .str s => .ok (s.toList.map (fun c => .str (String.singleton c)))
  | .object members => .ok (members.map (fun m => .str m.1))
  | _ => .error .wrongKind

def expectText : Value → Except Fault String
  | .str s => .ok s
  | _ => .error .wrongKind

def receiveText (operation : String) : Value → Except Fault String
  | .str s => .ok s
  | v => .error (.noSuchOperation v.kindName operation)

/-- The texts that a value holds, joined; all of them have to be texts. -/
def joinTexts (separator : String) (v : Value) : Except Fault String := do
  let items ← v.elements
  let texts ← items.mapM expectText
  return String.intercalate separator texts

end SheetIntake.Value
