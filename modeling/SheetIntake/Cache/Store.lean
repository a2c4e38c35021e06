import SheetIntake.Cache.Glob
import SheetIntake.Plan

/-!
# The store of the cache

The cache keeps entries under keys. An entry is a text, a record of fields, a set, a list, a set
with scores, or a stream, and may have a time to live. Values are kept as text. Each request is one
atomic step, and a request that fails changes nothing.
-/

namespace SheetIntake.Cache

inductive Content where
  | text (s : String)
  | fields (fields : List (String × String))
  | members (members : List String)
  | items (items : List String)
  | scores (scores : List (String × Binary64))
  | stream
  deriving DecidableEq

def Content.kind : Content → String
  | .text _ => "string"
  | .fields _ => "hash"
  | .members _ => "set"
  | .items _ => "list"
  | .scores _ => "zset"
  | .stream => "stream"

/-- An entry: a content, and how many seconds it lives where that is limited. -/
structure Entry where
  content : Content
  lifetime : Option Int := none
  deriving DecidableEq

def stored : Value → Except Fault String
  | .str s => .ok s
  | .int n => .ok (toString n)
  | .float x => .ok x.text
  | v => .error (.uncacheable v.kindName)

inductive Request where
  | ping
  | keys (pattern : String)
  | kind (key : String)
  | get (key : String)
  | set (key : String) (value : Value) (lifetime : Option Int)
  | delete (keys : List String)
  | fields (key : String)
  | setFields (key : String) (fields : List (String × Value))
  | members (key : String)
  | addMember (key : String) (member : Value)
  | items (key : String)
  | scores (key : String)
  | clear

def Request.Answer : Request → Type
  | .ping | .set _ _ _ | .setFields _ _ | .addMember _ _ | .clear => Unit
  | .keys _ | .members _ | .items _ => List String
  | .kind _ | .get _ => Option String
  | .delete _ => Nat
  | .fields _ => List (String × String)
  | .scores _ => List (String × Binary64)

abbrev protocol : Protocol :=
  { Request := Request, Answer := Request.Answer }

def ping : Job protocol Unit :=
  Job.ask (p := protocol) .ping

def keys (pattern : String) : Job protocol (List String) :=
  Job.ask (p := protocol) (.keys pattern)

def kind (key : String) : Job protocol (Option String) :=
  Job.ask (p := protocol) (.kind key)

def get (key : String) : Job protocol (Option String) :=
  Job.ask (p := protocol) (.get key)

def set (key : String) (value : Value) (lifetime : Option Int) : Job protocol Unit :=
  Job.ask (p := protocol) (.set key value lifetime)

def delete (keys : List String) : Job protocol Nat :=
  Job.ask (p := protocol) (.delete keys)

def fields (key : String) : Job protocol (List (String × String)) :=
  Job.ask (p := protocol) (.fields key)

def setFields (key : String) (fields : List (String × Value)) : Job protocol Unit :=
  Job.ask (p := protocol) (.setFields key fields)

def members (key : String) : Job protocol (List String) :=
  Job.ask (p := protocol) (.members key)

def addMember (key : String) (member : Value) : Job protocol Unit :=
  Job.ask (p := protocol) (.addMember key member)

def items (key : String) : Job protocol (List String) :=
  Job.ask (p := protocol) (.items key)

/-- Asks for the members with scores under a key, the lowest score first. -/
def scores (key : String) : Job protocol (List (String × Binary64)) :=
  Job.ask (p := protocol) (.scores key)

def clear : Job protocol Unit :=
  Job.ask (p := protocol) .clear

structure Store where
  entries : List (String × Entry) := []
  reachable : Bool := true

namespace Store

def sorted (texts : List String) : List String :=
  texts.mergeSort (fun a b => decide (a ≤ b))

/-- Whether a member with its score comes before another one or is the same. -/
def scoreOrder (a b : String × Binary64) : Bool :=
  match a.2.compare? b.2 with
  | some .lt => true
  | some .gt => false
  | _ => decide (a.1 ≤ b.1)

def contentDocument : Content → Value
  | .text s => .str s
  | .fields fields => .object (fields.map (fun f => (f.1, .str f.2)))
  | .members members => .list ((sorted members).map .str)
  | .items items => .list (items.map .str)
  | .scores scores => .list ((scores.mergeSort (fun a b => decide (a.1 ≤ b.1))).map (fun m =>
      .list [.str m.1, .float m.2]))
  | .stream => .str "stream"

/-- The document of all entries, with their times to live where those are limited. -/
def document (s : Store) : Value :=
  .object (s.entries.map (fun e =>
    (e.1, .object (("v", contentDocument e.2.content) :: match e.2.lifetime with
      | some seconds => [("ttl", .int seconds)]
      | none => []))))

def content? (s : Store) (key : String) : Option Content :=
  (Assoc.get? key s.entries).map Entry.content

/-- The store with other content under a key that keeps its time to live. -/
def replace (s : Store) (key : String) (content : Content) : Store :=
  let lifetime := (Assoc.get? key s.entries).bind Entry.lifetime
  { s with entries := Assoc.put key { content, lifetime } s.entries }

def fieldsOf (s : Store) (key : String) : Except Fault (List (String × String)) :=
  match s.content? key with
  | none => .ok []
  | some (.fields fields) => .ok fields
  | some _ => .error .wrongCacheKind

def membersOf (s : Store) (key : String) : Except Fault (List String) :=
  match s.content? key with
  | none => .ok []
  | some (.members members) => .ok members
  | some _ => .error .wrongCacheKind

def itemsOf (s : Store) (key : String) : Except Fault (List String) :=
  match s.content? key with
  | none => .ok []
  | some (.items items) => .ok items
  | some _ => .error .wrongCacheKind

def scoresOf (s : Store) (key : String) : Except Fault (List (String × Binary64)) :=
  match s.content? key with
  | none => .ok []
  | some (.scores scores) => .ok scores
  | some _ => .error .wrongCacheKind

def textOf (s : Store) (key : String) : Except Fault (Option String) :=
  match s.content? key with
  | none => .ok none
  | some (.text t) => .ok (some t)
  | some _ => .error .wrongCacheKind

def withFields (s : Store) (key : String) (added : List (String × String)) :
    Except Fault Store := do
  let fields ← s.fieldsOf key
  return s.replace key (.fields (Assoc.merge fields added))

def withMembers (s : Store) (key : String) (added : List String) : Except Fault Store := do
  let members ← s.membersOf key
  return s.replace key (.members (added.foldl (fun ms m => if m ∈ ms then ms else ms ++ [m]) members))

def withItems (s : Store) (key : String) (added : List String) : Except Fault Store := do
  let items ← s.itemsOf key
  return s.replace key (.items (items ++ added))

def withScores (s : Store) (key : String) (added : List (String × Binary64)) :
    Except Fault Store := do
  let scores ← s.scoresOf key
  return s.replace key (.scores (Assoc.merge scores added))

/-- The store with a text under a key, with a time to live or without. -/
def withText (s : Store) (key : String) (value : Value) (lifetime : Option Int) :
    Except Fault Store := do
  let text ← stored value
  if lifetime.any (fun seconds => decide (seconds ≤ 0)) then throw .invalidExpiry
  return { s with entries := Assoc.put key { content := .text text, lifetime } s.entries }

def without (s : Store) (keys : List String) : Store :=
  { s with entries := s.entries.filter (fun e => e.1 ∉ keys) }

/-- A store after a change, or the fault with the store as it was. -/
def changed (s : Store) (result : Except Fault Store) : Except Fault Unit × Store :=
  match result with
  | .ok s => (.ok (), s)
  | .error fault => (.error fault, s)

def respond (s : Store) : (request : Request) → Except Fault request.Answer × Store
  | .ping => (.ok (), s)
  | .keys pattern => (.ok (sorted ((Assoc.keys s.entries).filter (keyMatches pattern))), s)
  | .kind key => (.ok ((s.content? key).map Content.kind), s)
  | .get key => (s.textOf key, s)
  | .set key value lifetime => s.changed (s.withText key value lifetime)
  | .delete keys =>
    if keys.isEmpty then (.error .noKeysGiven, s)
    else (.ok (s.entries.filter (fun e => e.1 ∈ keys)).length, s.without keys)
  | .fields key => (s.fieldsOf key, s)
  | .setFields key fields => s.changed (do
      let fields ← fields.mapM (fun f => do return (f.1, ← stored f.2))
      s.withFields key fields)
  | .members key => ((s.membersOf key).map sorted, s)
  | .addMember key member => s.changed (do s.withMembers key [← stored member])
  | .items key => (s.itemsOf key, s)
  | .scores key => ((s.scoresOf key).map (fun scores => scores.mergeSort scoreOrder), s)
  | .clear => (.ok (), { s with entries := [] })

end Store

def servers : Servers protocol Store := fun request s =>
  if s.reachable then s.respond request else (.error .cacheUnreachable, s)

end SheetIntake.Cache
