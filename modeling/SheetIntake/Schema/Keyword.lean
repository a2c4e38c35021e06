import SheetIntake.Pattern.Parser
import SheetIntake.Schema.Finding
import SheetIntake.Schema.Reference
import SheetIntake.Value.Alike
import SheetIntake.Value.Number

/-!
# Keywords

Each keyword of a schema looks at a value and reports findings. A keyword that applies other schemas
does so through the `Check` that it is given, so this module has no recursion of its own.
-/

namespace SheetIntake.Schema

/-- What a keyword works with: the schema that it stands in, the value that is looked at, and how
other schemas are applied. -/
structure Check where
  draft : Draft
  members : List (String × Value)
  value : Value
  formats : Bool
  apply : Value → Value → Findings
  /-- Applies the schema that a reference names. -/
  applyReference : String → Value → Findings

/-- What is found about a text; other values are not looked at. -/
def onText (v : Value) (find : String → Findings) : Findings :=
  match v with
  | .str s => find s
  | _ => .clean

def onList (v : Value) (find : List Value → Findings) : Findings :=
  match v with
  | .list items => find items
  | _ => .clean

def onObject (v : Value) (find : List (String × Value) → Findings) : Findings :=
  match v with
  | .object members => find members
  | _ => .clean

def itemsOf : Value → List Value
  | .list items => items
  | _ => []

def membersOf : Value → List (String × Value)
  | .object members => members
  | _ => []

def isObject : Value → Bool
  | .object _ => true
  | _ => false

namespace Check

def typeMatches (c : Check) : Bool :=
  match Assoc.get? "type" c.members with
  | some (.str name) => isType c.draft c.value name
  | some (.list names) => names.any (fun name => isType c.draft c.value name.text)
  | _ => false

def reportWith (c : Check) (keyword message : String) (context : List Finding) : Findings :=
  .one (.mk message [] keyword c.typeMatches context)

def report (c : Check) (keyword message : String) : Findings :=
  c.reportWith keyword message []

def ensure (c : Check) (keyword : String) (holds : Bool) (message : Unit → String) : Findings :=
  if holds then .clean else c.report keyword (message ())

/-- Applies a schema to a part of the value. What the schema `false` reports stays with the value as
a whole. -/
def applyAt (c : Check) (step : Step) (schema part : Value) : Findings :=
  match schema with
  | .bool false => c.apply schema part
  | schema => (c.apply schema part).under step

def shown (c : Check) : String :=
  c.value.inspect

def applyToItems (c : Check) (schema : Value) (start : Nat) (items : List Value) : Findings :=
  Findings.each (fun p => c.applyAt (.index (start + p.2)) schema p.1) items.zipIdx

def applyInTurn (c : Check) (schemas items : List Value) : Findings :=
  Findings.each (fun p => c.applyAt (.index p.2) p.1.1 p.1.2) (schemas.zip items).zipIdx

/-- The names in a list with quotes, and the verb for their number. -/
def extras (vs : List Value) : String :=
  String.intercalate ", " (vs.map Value.inspect) ++ (if vs.length = 1 then " was" else " were")

/-! ## Types, constants and limits -/

def isOfType (c : Check) : Value → Bool
  | .str name => isType c.draft c.value name
  | _ => false

def type (c : Check) (v : Value) : Findings :=
  let names := match v with
    | .list names => names
    | v => [v]
  c.ensure "type" (names.any c.isOfType) (fun _ =>
    c.shown ++ " is not of type " ++ String.intercalate ", " (names.map Value.inspect))

def enum (c : Check) (v : Value) : Findings :=
  c.ensure "enum" ((itemsOf v).any (fun item => item.equal c.value)) (fun _ =>
    c.shown ++ " is not one of " ++ v.inspect)

def const (c : Check) (v : Value) : Findings :=
  c.ensure "const" (c.value.equal v) (fun _ => v.inspect ++ " was expected")

def isNumber (c : Check) : Bool :=
  isType c.draft c.value "number"

def minimum (c : Check) (v : Value) : Findings :=
  if !c.isNumber then .clean
  else if c.draft = .four && ((Assoc.get? "exclusiveMinimum" c.members).getD .null).truthy then
    c.ensure "minimum" (!c.value.lessOrEqual v) (fun _ =>
      c.shown ++ " is less than or equal to the minimum of " ++ v.inspect)
  else
    c.ensure "minimum" (!c.value.less v) (fun _ =>
      c.shown ++ " is less than the minimum of " ++ v.inspect)

def maximum (c : Check) (v : Value) : Findings :=
  if !c.isNumber then .clean
  else if c.draft = .four && ((Assoc.get? "exclusiveMaximum" c.members).getD .null).truthy then
    c.ensure "maximum" (!v.lessOrEqual c.value) (fun _ =>
      c.shown ++ " is greater than or equal to the maximum of " ++ v.inspect)
  else
    c.ensure "maximum" (!v.less c.value) (fun _ =>
      c.shown ++ " is greater than the maximum of " ++ v.inspect)

def exclusiveMinimum (c : Check) (v : Value) : Findings :=
  c.ensure "exclusiveMinimum" (!c.isNumber || !c.value.lessOrEqual v) (fun _ =>
    c.shown ++ " is less than or equal to the minimum of " ++ v.inspect)

def exclusiveMaximum (c : Check) (v : Value) : Findings :=
  c.ensure "exclusiveMaximum" (!c.isNumber || !v.lessOrEqual c.value) (fun _ =>
    c.shown ++ " is greater than or equal to the maximum of " ++ v.inspect)

/-- Whether one exact fraction is a whole multiple of another. -/
def isMultipleOf (a b : Int × Nat) : Bool :=
  let divisor := b.1 * a.2
  divisor ≠ 0 && (a.1 * b.2) % divisor = 0

def toFloat : Value → Except Fault Binary64
  | .float x => .ok x
  | .int n =>
    match Binary64.ofInt? n with
    | some x => .ok x
    | none => .error .integerTooLarge
  | _ => .error .wrongKind

/-- Whether a number is a multiple of another. By a floating point number it is divided, and the
rounded quotient has to be whole; by an integer the exact remainder has to be zero. -/
def isMultiple (value divisor : Value) : Except Fault Bool :=
  match value, divisor with
  | .int n, .int d => .ok (d ≠ 0 && n % d = 0)
  | value, .float d => do
    let x ← toFloat value
    match x.fraction?, d.fraction? with
    | some a, some b =>
      match x.divide? d with
      | some (.finite s m e h) => return Binary64.isInteger (.finite s m e h)
      | some _ => return isMultipleOf a b
      | none => throw .divisionByZero
    | none, _ =>
      match x with
      | .nan => throw (.notFinite "cannot convert float NaN to integer")
      | _ => throw (.notFinite "cannot convert Infinity to integer ratio")
    | some _, none => return true
  | .float x, .int d => do
    let d ← toFloat (.int d)
    match x.fraction?, d.fraction? with
    | some a, some b => return isMultipleOf a b
    | _, _ => return false
  | _, _ => .ok true

def multipleOf (c : Check) (v : Value) : Findings :=
  if !c.isNumber then .clean
  else
    match isMultiple c.value v with
    | .ok holds => c.ensure "multipleOf" holds (fun _ =>
        c.shown ++ " is not a multiple of " ++ v.inspect)
    | .error fault => .failed fault

/-! ## Sizes -/

def atLeast (c : Check) (keyword : String) (size : Nat) (v : Value) (otherwise : String) :
    Findings :=
  c.ensure keyword (!(Value.int size).less v) (fun _ =>
    c.shown ++ (if v.isInt 1 then " should be non-empty" else otherwise))

def atMost (c : Check) (keyword : String) (size : Nat) (v : Value) (otherwise : String) :
    Findings :=
  c.ensure keyword (!v.less (.int size)) (fun _ =>
    c.shown ++ (if v.isInt 0 then " is expected to be empty" else otherwise))

def minLength (c : Check) (v : Value) : Findings :=
  onText c.value (fun s => c.atLeast "minLength" s.length v " is too short")

def maxLength (c : Check) (v : Value) : Findings :=
  onText c.value (fun s => c.atMost "maxLength" s.length v " is too long")

def minItems (c : Check) (v : Value) : Findings :=
  onList c.value (fun items => c.atLeast "minItems" items.length v " is too short")

def maxItems (c : Check) (v : Value) : Findings :=
  onList c.value (fun items => c.atMost "maxItems" items.length v " is too long")

def minProperties (c : Check) (v : Value) : Findings :=
  onObject c.value (fun members =>
    c.atLeast "minProperties" members.length v " does not have enough properties")

def maxProperties (c : Check) (v : Value) : Findings :=
  onObject c.value (fun members =>
    c.atMost "maxProperties" members.length v " has too many properties")

/-! ## Texts -/

def patternMatches (pattern text : String) : Bool :=
  match Pattern.parse? pattern with
  | some p => p.search text
  | none => false

def pattern (c : Check) (v : Value) : Findings :=
  onText c.value (fun s => onText v (fun p =>
    c.ensure "pattern" (patternMatches p s) (fun _ =>
      c.shown ++ " does not match " ++ v.inspect)))

/-- The text has a format. Patterns are the one format that is checked, and only where formats
are. -/
def format (c : Check) (v : Value) : Findings :=
  onText v (fun name => onText c.value (fun s =>
    c.ensure "format" (!c.formats || name ≠ "regex" || (Pattern.parse? s).isSome) (fun _ =>
      c.shown ++ " is not a " ++ v.inspect)))

/-! ## Lists -/

def allDistinct : List Value → Bool
  | [] => true
  | v :: rest => !rest.any (fun w => v.equal w) && allDistinct rest

def uniqueItems (c : Check) (v : Value) : Findings :=
  onList c.value (fun items => c.ensure "uniqueItems" (!v.truthy || allDistinct items) (fun _ =>
    c.shown ++ " has non-unique elements"))

/-- How many items the schema describes one by one. -/
def prefixLength (c : Check) : Nat :=
  (itemsOf ((Assoc.get? "prefixItems" c.members).getD .null)).length

def prefixItems (c : Check) (v : Value) : Findings :=
  onList c.value (fun items => onList v (fun schemas => c.applyInTurn schemas items))

def restItems (c : Check) (v : Value) (items : List Value) : Findings :=
  let start := c.prefixLength
  let rest := items.drop start
  if rest.isEmpty then .clean
  else if v = .bool false then
    let shownRest := match rest with
      | [one] => one.inspect
      | rest => (Value.list rest).inspect
    c.report "items" ("Expected at most " ++ toString start ++
      (if start = 1 then " item" else " items") ++ " but found " ++ toString rest.length ++
      " extra: " ++ shownRest)
  else c.applyToItems v start rest

/-- The items satisfy a schema. In the earlier drafts there may be one schema for each item. -/
def items (c : Check) (v : Value) : Findings :=
  onList c.value (fun items =>
    if c.draft = .latest then c.restItems v items
    else
      match v with
      | .list schemas => c.applyInTurn schemas items
      | v => c.applyToItems v 0 items)

def additionalItems (c : Check) (v : Value) : Findings :=
  onList c.value (fun items =>
    match (Assoc.get? "items" c.members).getD (.object []) with
    | .list schemas =>
      let rest := items.drop schemas.length
      if isObject v then c.applyToItems v schemas.length rest
      else
        c.ensure "additionalItems" (v.truthy || rest.isEmpty) (fun _ =>
          "Additional items are not allowed (" ++ extras rest ++ " unexpected)")
    | .bool _ => .failed (.noLength "bool")
    | _ => .clean)

def countAccepted (c : Check) (schema : Value) (bound : Value) :
    Nat → List Value → Except Fault (Nat × Bool)
  | n, [] => .ok (n, false)
  | n, v :: rest => do
    if ← (c.apply schema v).isClean then
      if bound.less (.int (n + 1)) then return (n + 1, true)
      countAccepted c schema bound (n + 1) rest
    else countAccepted c schema bound n rest

/-- Some items satisfy a schema, within bounds for their number. -/
def contains (c : Check) (v : Value) : Findings :=
  onList c.value (fun items =>
    let least := (Assoc.get? "minContains" c.members).getD (.int 1)
    let most := (Assoc.get? "maxContains" c.members).getD (.int items.length)
    match c.draft with
    | .latest =>
      .ofExcept (do
        let (count, tooMany) ← c.countAccepted v most 0 items
        if tooMany then
          return c.report "maxContains"
            ("Too many items match the given schema (expected at most " ++ most.inspect ++ ")")
        if (Value.int count).less least then
          if count = 0 then
            return c.report "contains"
              (c.shown ++ " does not contain items matching the given schema")
          return c.report "minContains"
            ("Too few items match the given schema (expected at least " ++ least.inspect ++
              " but only " ++ toString count ++ " matched)")
        return .clean)
    | _ =>
      .ofExcept (do
        let (count, _) ← c.countAccepted v (.int 0) 0 items
        return c.ensure "contains" (count ≠ 0) (fun _ =>
          "None of " ++ c.shown ++ " are valid under the given schema")))

/-! ## Objects -/

def properties (c : Check) (v : Value) : Findings :=
  onObject c.value (fun members =>
    Findings.each (fun p =>
      match Assoc.get? p.1 members with
      | some part => c.applyAt (.name p.1) p.2 part
      | none => .clean) (membersOf v))

def patternProperties (c : Check) (v : Value) : Findings :=
  onObject c.value (fun members =>
    Findings.each (fun p =>
      Findings.each (fun m =>
        if patternMatches p.1 m.1 then c.applyAt (.name m.1) p.2 m.2 else .clean) members)
      (membersOf v))

def propertyNames (c : Check) (v : Value) : Findings :=
  onObject c.value (fun members => Findings.each (fun m => c.apply v (.str m.1)) members)

/-- Whether the schema neither names a member nor matches its name. -/
def isAdditional (c : Check) (name : String) : Bool :=
  let named := membersOf ((Assoc.get? "properties" c.members).getD .null)
  let patterns :=
    Assoc.keys (membersOf ((Assoc.get? "patternProperties" c.members).getD .null))
  let usable := String.intercalate "|" patterns ≠ ""
  (Assoc.get? name named).isNone && !(usable && patterns.any (fun p => patternMatches p name))

def sortedNames (names : List String) : List Value :=
  (names.mergeSort (fun a b => decide (a ≤ b))).map .str

def additionalProperties (c : Check) (v : Value) : Findings :=
  onObject c.value (fun members =>
    let others := members.filter (fun m => c.isAdditional m.1)
    if isObject v then Findings.each (fun m => c.applyAt (.name m.1) v m.2) others
    else
      c.ensure "additionalProperties" (v.truthy || others.isEmpty) (fun _ =>
        let names := sortedNames (others.map Prod.fst)
        match Assoc.get? "patternProperties" c.members with
        | some patterns =>
          let patterns := sortedNames ((membersOf patterns).map Prod.fst)
          let joined (vs : List Value) : String := String.intercalate ", " (vs.map Value.inspect)
          joined names ++ (if names.length = 1 then " does" else " do") ++
            " not match any of the regexes: " ++ joined patterns
        | none => "Additional properties are not allowed (" ++ extras names ++ " unexpected)"))

/-- Whether a member is named; only a text names one. -/
def hasMember (members : List (String × Value)) : Value → Bool
  | .str name => (Assoc.get? name members).isSome
  | _ => false

def required (c : Check) (v : Value) : Findings :=
  onObject c.value (fun members => onList v (fun names =>
    Findings.each (fun name =>
      c.ensure "required" (hasMember members name) (fun _ =>
        name.inspect ++ " is a required property")) names))

/-- The object has all the members that another member depends on. -/
def dependency (c : Check) (keyword name : String) (members : List (String × Value))
    (needed : List Value) : Findings :=
  Findings.each (fun other =>
    c.ensure keyword (hasMember members other) (fun _ =>
      other.inspect ++ " is a dependency of " ++ Text.quoted name)) needed

def dependencies (c : Check) (keyword : String) (v : Value) : Findings :=
  onObject c.value (fun members =>
    Findings.each (fun p =>
      if (Assoc.get? p.1 members).isNone then .clean
      else if keyword = "dependentSchemas" then c.apply p.2 c.value
      else
        match p.2 with
        | .list needed => c.dependency keyword p.1 members needed
        | schema => c.apply schema c.value) (membersOf v))

/-! ## Combinations -/

def allOf (c : Check) (v : Value) : Findings :=
  Findings.each (fun schema => c.apply schema c.value) (itemsOf v)

/-- The first schema that accepts the value with those after it, or the findings of all. -/
def firstAccepting (c : Check) :
    List Value → List Finding → Except Fault (Except (List Finding) (Value × List Value))
  | [], found => .ok (.error found)
  | schema :: rest, found => do
    match ← (c.apply schema c.value).complete with
    | [] => return .ok (schema, rest)
    | more => firstAccepting c rest (found ++ more)

/-- What is told of a value that no alternative accepts. -/
def noAlternative (c : Check) (keyword : String) (context : List Finding) : Findings :=
  c.reportWith keyword (c.shown ++ " is not valid under any of the given schemas") context

def anyOf (c : Check) (v : Value) : Findings :=
  .ofExcept (do
    match ← c.firstAccepting (itemsOf v) [] with
    | .ok _ => return .clean
    | .error found => return c.noAlternative "anyOf" found)

def oneOf (c : Check) (v : Value) : Findings :=
  .ofExcept (do
    match ← c.firstAccepting (itemsOf v) [] with
    | .error found => return c.noAlternative "oneOf" found
    | .ok (first, rest) =>
      let further ← rest.filterM (fun schema => (c.apply schema c.value).isClean)
      if further.isEmpty then return .clean
      let shown := String.intercalate ", " ((further ++ [first]).map Value.inspect)
      return c.report "oneOf" (c.shown ++ " is valid under each of " ++ shown))

def not (c : Check) (v : Value) : Findings :=
  .ofExcept (do
    let accepted ← (c.apply v c.value).isClean
    return c.ensure "not" (!accepted) (fun _ =>
      c.shown ++ " should not be valid under " ++ v.inspect))

def conditional (c : Check) (v : Value) : Findings :=
  .ofExcept (do
    let accepted ← (c.apply v c.value).isClean
    match Assoc.get? (if accepted then "then" else "else") c.members with
    | some schema => return c.apply schema c.value
    | none => return .clean)

def reference (c : Check) (v : Value) : Findings :=
  onText v (fun address => c.applyReference address c.value)

/-! ## Dispatch -/

abbrev Table : Type := List (String × (Check → Value → Findings))

def common : Table :=
  [("$ref", reference), ("additionalProperties", additionalProperties), ("allOf", allOf),
    ("anyOf", anyOf), ("enum", enum), ("format", format), ("items", items), ("maxItems", maxItems),
    ("maxLength", maxLength), ("maxProperties", maxProperties), ("maximum", maximum),
    ("minItems", minItems), ("minLength", minLength), ("minProperties", minProperties),
    ("minimum", minimum), ("multipleOf", multipleOf), ("not", not), ("oneOf", oneOf),
    ("pattern", pattern), ("patternProperties", patternProperties), ("properties", properties),
    ("required", required), ("type", type), ("uniqueItems", uniqueItems)]

/-- The keywords of draft seven and the latest draft. -/
def sinceSeven : Table :=
  [("const", const), ("contains", contains), ("exclusiveMaximum", exclusiveMaximum),
    ("exclusiveMinimum", exclusiveMinimum), ("if", conditional), ("propertyNames", propertyNames)]

/-- The keywords of the earlier drafts only. -/
def untilSeven : Table :=
  [("additionalItems", additionalItems),
    ("dependencies", fun c => c.dependencies "dependencies")]

def sinceLatest : Table :=
  [("$dynamicRef", reference), ("dependentRequired", fun c => c.dependencies "dependentRequired"),
    ("dependentSchemas", fun c => c.dependencies "dependentSchemas"), ("prefixItems", prefixItems)]

def table : Draft → Table
  | .four => common ++ untilSeven
  | .seven => common ++ sinceSeven ++ untilSeven
  | .latest => common ++ sinceSeven ++ sinceLatest

/-- What a keyword finds. Words that are no keywords of the draft find nothing. -/
def keyword (c : Check) (name : String) (v : Value) : Findings :=
  match Assoc.get? name (table c.draft) with
  | some find => find c v
  | none => .clean

end Check

end SheetIntake.Schema
