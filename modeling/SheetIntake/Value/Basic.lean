import SheetIntake.Assoc
import SheetIntake.Decimal.Binary64

/-!
# Values

A value is a document of the usual data format: null, a truth value, a number, a text, a list, or an
object whose members keep their order. Whole numbers of any size and floating point numbers are two
kinds of their own.
-/

namespace SheetIntake

inductive Value where
  | null
  | bool (b : Bool)
  | int (n : Int)
  | float (x : Binary64)
  | str (s : String)
  | list (items : List Value)
  | object (members : List (String × Value))
  deriving Inhabited

namespace Value

mutual

def decEq : (a b : Value) → Decidable (a = b)
  | .null, b => match b with
    | .null => isTrue rfl
    | .bool _ | .int _ | .float _ | .str _ | .list _ | .object _ => isFalse nofun
  | .bool a, b => match b with
    | .bool b => decidable_of_iff (a = b) (by simp)
    | .null | .int _ | .float _ | .str _ | .list _ | .object _ => isFalse nofun
  | .int a, b => match b with
    | .int b => decidable_of_iff (a = b) (by simp)
    | .null | .bool _ | .float _ | .str _ | .list _ | .object _ => isFalse nofun
  | .float a, b => match b with
    | .float b => decidable_of_iff (a = b) (by simp)
    | .null | .bool _ | .int _ | .str _ | .list _ | .object _ => isFalse nofun
  | .str a, b => match b with
    | .str b => decidable_of_iff (a = b) (by simp)
    | .null | .bool _ | .int _ | .float _ | .list _ | .object _ => isFalse nofun
  | .list a, b => match b with
    | .list b => match decEqItems a b with
      | isTrue h => isTrue (congrArg Value.list h)
      | isFalse h => isFalse (fun e => h (Value.list.inj e))
    | .null | .bool _ | .int _ | .float _ | .str _ | .object _ => isFalse nofun
  | .object a, b => match b with
    | .object b => match decEqMembers a b with
      | isTrue h => isTrue (congrArg Value.object h)
      | isFalse h => isFalse (fun e => h (Value.object.inj e))
    | .null | .bool _ | .int _ | .float _ | .str _ | .list _ => isFalse nofun

def decEqItems : (a b : List Value) → Decidable (a = b)
  | [], [] => isTrue rfl
  | [], _ :: _ => isFalse nofun
  | _ :: _, [] => isFalse nofun
  | x :: xs, y :: ys => match decEq x y, decEqItems xs ys with
    | isTrue h, isTrue k => isTrue (by rw [h, k])
    | isFalse h, _ => isFalse (fun e => h (List.cons.inj e).1)
    | _, isFalse k => isFalse (fun e => k (List.cons.inj e).2)

def decEqMembers : (a b : List (String × Value)) → Decidable (a = b)
  | [], [] => isTrue rfl
  | [], _ :: _ => isFalse nofun
  | _ :: _, [] => isFalse nofun
  | (k, x) :: xs, (l, y) :: ys => match decEq x y, decEqMembers xs ys with
    | isTrue h, isTrue t =>
      if e : k = l then isTrue (by rw [h, t, e])
      else isFalse (fun q => e (Prod.mk.inj (List.cons.inj q).1).1)
    | isFalse h, _ => isFalse (fun e => h (Prod.mk.inj (List.cons.inj e).1).2)
    | _, isFalse t => isFalse (fun e => t (List.cons.inj e).2)

end

instance : DecidableEq Value := decEq

/-- The member of an object; none for other values and for absent members. -/
def get? (v : Value) (name : String) : Option Value :=
  match v with
  | .object members => Assoc.get? name members
  | _ => none

/-- Whether a value counts as true where a condition is asked for: all but null, false, zero and
what is empty. -/
def truthy : Value → Bool
  | .null => false
  | .bool b => b
  | .int n => n ≠ 0
  | .float (.finite _ m _ _) => m ≠ 0
  | .float _ => true
  | .str s => s ≠ ""
  | .list items => !items.isEmpty
  | .object members => !members.isEmpty

def kindName : Value → String
  | .null => "NoneType"
  | .bool _ => "bool"
  | .int _ => "int"
  | .float _ => "float"
  | .str _ => "str"
  | .list _ => "list"
  | .object _ => "dict"

/-- Whether a value can be looked up as a key: lists and objects cannot. -/
def isKey : Value → Bool
  | .list _ | .object _ => false
  | _ => true

def ofText? : Option String → Value
  | some s => .str s
  | none => .null

end Value

end SheetIntake
