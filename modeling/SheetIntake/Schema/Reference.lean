import SheetIntake.Decimal.Reader
import SheetIntake.Schema.Metaschema
import SheetIntake.Value.Access

/-!
# References inside schemas

A reference names a document and a part of it, either by a pointer, which lists the names and
positions on the way down, or by an anchor. A schema that has an address of its own is a document
for the references inside it.
-/

namespace SheetIntake.Schema

/-- What references are resolved against. -/
structure Scope where
  draft : Draft
  base : String
  root : Value
  /-- The document at which the check began. -/
  outermost : Value
  deriving DecidableEq

namespace Scope

/-- An address seen from another one. -/
def join (base address : String) : String :=
  if Text.contains address "://" then address
  else
    let head := base.toList.reverse.dropWhile (fun c => c ≠ '/')
    String.ofList head.reverse ++ address

def splitFragment (reference : String) : String × String :=
  let cs := reference.toList
  let address := cs.takeWhile (fun c => c ≠ '#')
  (String.ofList address, String.ofList (cs.drop (address.length + 1)))

def ownAddress? (draft : Draft) (schema : Value) : Option String :=
  if draft.ignoresBesideReference && (schema.get? "$ref").isSome then none
  else
    match schema.get? draft.idKeyword with
    | some (.str address) => if Text.startsWith address "#" then none else some address
    | _ => none

/-- The scope inside a schema: one with its own address is a document. -/
def enter (scope : Scope) (schema : Value) : Scope :=
  match ownAddress? scope.draft schema with
  | some address => { scope with base := join scope.base address, root := schema }
  | none => scope

/-- The scope inside a schema that may also name its draft. -/
def within (scope : Scope) (schema : Value) : Scope :=
  { scope with draft := Draft.ofSchema scope.draft schema }.enter schema

def start (draft : Draft) (schema : Value) : Scope :=
  { draft, base := (ownAddress? draft schema).getD "", root := schema, outermost := schema }

end Scope

/-- The bytes of a text in which a percent sign and two digits stand for a byte. -/
def percentBytes : List Char → List UInt8
  | [] => []
  | '%' :: a :: b :: rest =>
    match Text.hexValue? a, Text.hexValue? b with
    | some x, some y => (16 * x + y).toUInt8 :: percentBytes rest
    | _, _ => Text.encodeUtf8 "%" ++ percentBytes (a :: b :: rest)
  | c :: rest => Text.encodeUtf8 (String.singleton c) ++ percentBytes rest

def percentDecoded (s : String) : String :=
  match Text.decodeUtf8 (percentBytes s.toList) with
  | .ok t => t
  | .error _ => s

def unescapedSegment (s : String) : String :=
  Text.replaceAll (Text.replaceAll s "~1" "/") "~0" "~"

/-- Follows the segments of a pointer; none where nothing is there. -/
def follow : List String → Value → Except Fault (Option Value)
  | [], v => .ok (some v)
  | segment :: rest, .object members =>
    match Assoc.get? (unescapedSegment segment) members with
    | some v => follow rest v
    | none => .ok none
  | segment :: rest, .list items =>
    match Decimal.readInt? segment with
    | none => .error (.notAnInteger segment)
    | some n =>
      let n := if n < 0 then n + items.length else n
      if n < 0 then .ok none
      else
        match items[n.toNat]? with
        | some v => follow rest v
        | none => .ok none
  | _ :: _, _ => .error .wrongKind

def nowhere (pointer : String) (root : Value) : Fault :=
  let hint := if pointer = "/" then
      ". The pointer '/' is a valid JSON Pointer but it points to an empty string property ''. " ++
      "If you intended to point to the entire resource, you should use '#'."
    else ""
  .unresolvable ("PointerToNowhere: " ++ Text.quoted pointer ++ " does not exist within " ++
    root.inspect ++ hint)

def resolvePointer (root : Value) (pointer : String) : Except Fault Value := do
  let segments := Text.splitOn (percentDecoded (String.ofList (pointer.toList.drop 1))) '/'
  match ← follow segments root with
  | some v => return v
  | none => throw (nowhere pointer root)

def hasAnchor (draft : Draft) (name : String) (members : List (String × Value)) : Bool :=
  match draft with
  | .latest => Assoc.get? "$anchor" members = some (.str name) ||
      Assoc.get? "$dynamicAnchor" members = some (.str name)
  | draft => Assoc.get? draft.idKeyword members = some (.str ("#" ++ name))

mutual

/-- The first schema inside a value that has an anchor. -/
def findAnchor? (draft : Draft) (name : String) : Value → Option Value
  | .object members =>
    if hasAnchor draft name members then some (.object members)
    else findAnchorInMembers? draft name members
  | .list items => findAnchorInItems? draft name items
  | _ => none

def findAnchorInItems? (draft : Draft) (name : String) : List Value → Option Value
  | [] => none
  | v :: rest => (findAnchor? draft name v).orElse (fun _ => findAnchorInItems? draft name rest)

def findAnchorInMembers? (draft : Draft) (name : String) : List (String × Value) → Option Value
  | [] => none
  | (_, v) :: rest =>
    (findAnchor? draft name v).orElse (fun _ => findAnchorInMembers? draft name rest)

end

/-- The part of a document that an anchor names. Where the anchor is dynamic and the document at
which the check began has it too, the latter is meant. -/
def resolveAnchor (scope : Scope) (name : String) : Except Fault (Scope × Value) :=
  match findAnchor? scope.draft name scope.root with
  | some found =>
    let dynamic (v : Value) : Bool := v.get? "$dynamicAnchor" = some (.str name)
    if dynamic found && dynamic scope.outermost then
      .ok (Scope.enter { scope with root := scope.outermost } scope.outermost, scope.outermost)
    else .ok (scope, found)
  | none =>
    if Text.contains name "/" then
      .error (.unresolvable ("InvalidAnchor: '#" ++ name ++ "' is not a valid anchor, neither as " ++
        "a plain name anchor nor as a JSON Pointer. You may have intended to use '#/" ++ name ++
        "', as the slash is required *before each segment* of a JSON pointer."))
    else
      .error (.unresolvable ("NoSuchAnchor: " ++ Text.quoted name ++ " does not exist within " ++
        scope.root.inspect))

def resolveDocument (scope : Scope) (reference address : String) : Except Fault Scope :=
  if address = "" then .ok scope
  else
    let address := Scope.join scope.base address
    if Draft.withoutFragment scope.base = address then .ok scope
    else
      match Assoc.get? address Metaschema.documents with
      | some document => .ok { scope with base := address, root := document }
      | none => .error (.unresolvable ("Unresolvable: " ++ reference))

def resolve (scope : Scope) (reference : String) : Except Fault (Scope × Value) := do
  let (address, fragment) := Scope.splitFragment reference
  let scope ← resolveDocument scope reference address
  if fragment = "" then return (scope, scope.root)
  if Text.startsWith fragment "/" then
    let v ← resolvePointer scope.root fragment
    return (scope, v)
  resolveAnchor scope fragment

end SheetIntake.Schema
