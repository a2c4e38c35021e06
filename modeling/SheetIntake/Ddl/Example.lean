import SheetIntake.Ddl.Pipeline
import SheetIntake.Json.Writer

/-!
# Demonstrations

What the two stages print when they are run without input: the translation of a formula, and the
script of a small table.
-/

namespace SheetIntake.Example

def cell (refKind key : String) : Value :=
  .object [("type", .str "cell"), ("refType", .str refKind), ("key", .str key)]

def binary (operator : String) (left right : Value) : Value :=
  .object [("type", .str "binary-expression"), ("operator", .str operator), ("left", left),
    ("right", right)]

def call (name : String) (arguments : List Value) : Value :=
  .object [("type", .str "function"), ("name", .str name), ("arguments", .list arguments)]

def text (s : String) : Value :=
  .object [("type", .str "text"), ("value", .str s)]

def number (v : Value) : Value :=
  .object [("type", .str "number"), ("value", v)]

/-- `SUM(A1:$E$1) + IF(AND(A1 > 5, B1 < 20), "True", "False") - E1 / 2.1` -/
def formula : Value :=
  let sum := call "SUM" [.object [("type", .str "cell-range"), ("left", cell "relative" "A1"),
    ("right", cell "absolute" "$E$1")]]
  let test := call "AND" [binary ">" (cell "relative" "A1") (number (.int 5)),
    binary "<" (cell "relative" "B1") (number (.int 20))]
  let choice := call "IF" [test, text "True", text "False"]
  binary "-" (binary "+" sum choice)
    (binary "/" (cell "relative" "E1") (number (.float (Binary64.ofDecimal false 21 (-1)))))

def names : Value :=
  .object [("A", .str "col1"), ("B", .str "col2"), ("C", .str "col3"), ("D", .str "col4"),
    ("E", .str "col5")]

def printedTranslation : Except Fault String := do
  let t ← (Formula.ofValue formula).translate names
  return Json.write .tree t.toValue ++ "\n"

/-- Definitions of four columns, two of which are computed. -/
def definitions : Value :=
  let constant : Value := .object [("type", .str "number"), ("value", .int 10)]
  let reference (cell column : String) : Value :=
    .object [("type", .str "cell"), ("cell", .str cell), ("refType", .str "relative"),
      ("column", .str column), ("error", .null), ("sql", .str column)]
  let limit : Value := .object [("type", .str "number"), ("value", .int 18), ("sql", .int 18)]
  let test : Value := .object [("type", .str "binary-expression"), ("operator", .str ">"),
    ("left", reference "A1" "col1"), ("right", limit), ("sql", .str "(col1) > (18)")]
  let outcome (s : String) : Value :=
    .object [("type", .str "text"), ("value", .str s), ("sql", .str ("'" ++ s ++ "'"))]
  let choice : Value := .object [("type", .str "function"),
    ("arguments", .list [test, outcome "Adult", outcome "Minor"]), ("name", .str "IF"),
    ("sql", .str "CASE WHEN (col1) > (18) THEN 'Adult' ELSE 'Minor' END")]
  .object [("col1", constant), ("col2", choice), ("col3", reference "B1" "col2"),
    ("col4", constant)]

def types : Value :=
  let type (name : String) : Value := .object [("type", .str name)]
  .object [("col1", type "INTEGER"), ("col2", type "TEXT"), ("col3", type "TEXT"),
    ("col4", type "INTEGER")]

def printedScript : Except Fault String := do
  let script ← Script.ofColumns definitions types "test_table"
  return script.text ++ "\n"

end SheetIntake.Example
