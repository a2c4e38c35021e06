import SheetIntake.Text.Search
import SheetIntake.Value.Basic

/-!
# Drafts of the schema language

A schema is written in one of three drafts of the language, which it names by an address. They
differ in their keywords and in what counts as an integer.
-/

namespace SheetIntake.Schema

inductive Draft where
  | four
  | seven
  | latest
  deriving DecidableEq, Repr

namespace Draft

def uri : Draft → String
  | .four => "http://json-schema.org/draft-04/schema"
  | .seven => "http://json-schema.org/draft-07/schema"
  | .latest => "https://json-schema.org/draft/2020-12/schema"

def withoutFragment (address : String) : String :=
  if Text.endsWith address "#" then String.ofList address.toList.dropLast else address

def ofUri? (address : String) : Option Draft :=
  [Draft.four, Draft.seven, Draft.latest].find? (fun d => d.uri = withoutFragment address)

def ofSchema (default : Draft) (schema : Value) : Draft :=
  match schema.get? "$schema" with
  | some (.str address) => (ofUri? address).getD default
  | _ => default

def ignoresBesideReference : Draft → Bool
  | .four | .seven => true
  | .latest => false

/-- The keyword that gives a schema its own address. -/
def idKeyword : Draft → String
  | .four => "id"
  | .seven | .latest => "$id"

end Draft

/-- Whether a value is of a type of the language. Truth values are no numbers; a floating point
number without a fraction is an integer, except in draft four. -/
def isType (draft : Draft) (v : Value) : String → Bool
  | "array" => match v with
    | .list _ => true
    | _ => false
  | "boolean" => match v with
    | .bool _ => true
    | _ => false
  | "integer" => match v with
    | .int _ => true
    | .float x => draft ≠ .four && x.isInteger
    | _ => false
  | "null" => match v with
    | .null => true
    | _ => false
  | "number" => match v with
    | .int _ => true
    | .float _ => true
    | _ => false
  | "object" => match v with
    | .object _ => true
    | _ => false
  | "string" => match v with
    | .str _ => true
    | _ => false
  | _ => false

end SheetIntake.Schema
