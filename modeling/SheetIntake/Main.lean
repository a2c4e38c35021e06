import SheetIntake.Ddl.Example
import SheetIntake.FormulaService.Contract

/-!
# The command line

* `translation` prints the translation of a formula.
* `script` prints the script of a small table.
* `address` prints where the formula service is found.
-/

namespace SheetIntake.CommandLine

/-- Prints a text, or tells on the error stream why there is none. -/
def printResult (result : Except Fault String) : IO UInt32 := do
  match result with
  | .ok text =>
    IO.print text
    return 0
  | .error fault =>
    IO.eprintln (fault.kind ++ ": " ++ fault.message)
    return 1

def environment (names : List String) : IO (List (String × String)) := do
  let found ← names.mapM (fun name => do
    return (← IO.getEnv name).map (fun value => (name, value)))
  return found.filterMap id

end SheetIntake.CommandLine

open SheetIntake SheetIntake.CommandLine

def main (args : List String) : IO UInt32 := do
  match args with
  | ["translation"] => printResult Example.printedTranslation
  | ["script"] => printResult Example.printedScript
  | ["address"] =>
    let env ← environment ["FORMULA_PARSER_HOST", "FORMULA_PARSER_PORT"]
    printResult (.ok (FormulaService.Address.ofEnvironment env).printed)
  | _ =>
    IO.eprintln "usage: translation | script | address"
    return 2
