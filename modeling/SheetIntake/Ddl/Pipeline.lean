import SheetIntake.Ddl.Script
import SheetIntake.Formula.Translation

/-!
# From formulas to a script

Each formula is translated under the same names of columns, and the translations are taken as the
definitions of the columns.
-/

namespace SheetIntake

def translateFamily (names : Value) (formulas : List (String × Value)) :
    Except Fault (List (String × Translated)) :=
  formulas.mapM (fun f => do
    let t ← (Formula.ofValue f.2).translate names
    return (f.1, t))

def Script.ofTranslated (family : List (String × Translated)) (types : Value) (table : String) :
    Except Fault Script :=
  Script.ofColumns (.object (family.map (fun f => (f.1, f.2.toValue)))) types table

end SheetIntake
