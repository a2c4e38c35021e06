import SheetIntake.Value.Access

/-!
# Summaries of validations

A summary tells the outcome of a validation in one sentence, with the counts beside it. It is made
from the document of a result.
-/

namespace SheetIntake.Schema

def partCount : Value → Except Fault Nat
  | .list items => .ok items.length
  | .str s => .ok s.length
  | .object members => .ok members.length
  | _ => .error .wrongKind

def summary (result : Value) : Except Fault Value := do
  let results ← result.memberOr "validation_results" .null
  if !results.truthy then
    return .object [("status", .str "error"), ("summary", .str "No validation results available")]
  let isValid ← results.member "is_valid"
  let (status, sentence) ←
    if isValid.truthy then do
      let total ← results.member "total_items"
      pure ("success", "All " ++ total.text ++ " items passed validation")
    else do
      let invalid ← results.member "invalid_items"
      let total ← results.member "total_items"
      pure ("warning", invalid.text ++ " out of " ++ total.text ++ " items failed validation")
  let total ← results.member "total_items"
  let valid ← results.member "valid_items"
  let invalid ← results.member "invalid_items"
  let errors ← results.memberOr "errors" (.list [])
  let count ← partCount errors
  let fileName ← results.memberOr "file_name" .null
  let validatedAt ← results.memberOr "validated_at" .null
  return .object [("status", .str status), ("summary", .str sentence),
    ("details", .object [("total_items", total), ("valid_items", valid),
      ("invalid_items", invalid), ("error_count", .int count), ("file_name", fileName),
      ("validated_at", validatedAt)])]

end SheetIntake.Schema
