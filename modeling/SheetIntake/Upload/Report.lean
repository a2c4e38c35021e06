import SheetIntake.Schema.Batch
import SheetIntake.Upload.File

/-!
# Validation of uploaded files

The rows of a file are validated under the active schema of an import name. The report says that
there is no schema, that the file cannot be read, that it has no rows, or what became of its rows.
-/

namespace SheetIntake

inductive FileReport where
  | noSchema (importName : Value)
  | unreadable (reason : String)
  | noRows
  | checked (rows : Schema.BatchReport) (file : Upload) (importName : Value) (at_ : String)

namespace FileReport

def document : FileReport → Value
  | .noSchema importName => .object [("success", .bool false),
      ("error", .str ("No active schema found for import name: " ++ importName.text)),
      ("validation_results", .null)]
  | .unreadable reason => .object [("success", .bool false), ("error", .str reason),
      ("validation_results", .null)]
  | .noRows => .object [("success", .bool false), ("error", .null),
      ("validation_results", .object [("is_valid", .bool false), ("total_items", .int 0),
        ("valid_items", .int 0), ("invalid_items", .int 0), ("errors", .list []),
        ("message", .str "File is empty but valid")])]
  | .checked rows file importName at_ => .object [("success", .bool true), ("error", .null),
      ("validation_results", .object (rows.members ++ [("file_name", file.name),
        ("file_size", file.size), ("content_type", file.contentType),
        ("import_name", importName), ("validated_at", .str at_)]))]

end FileReport

/-- Validates the rows of a file under the active schema, null where there is none. No more workers
are used than the limit allows. -/
def Upload.validate (file : Upload) (schema importName : Value) (workers limit : Int)
    (now : String) : Except Fault FileReport :=
  if !schema.truthy then .ok (.noSchema importName)
  else
    match file.rows with
    | .error reason => .ok (.unreadable reason)
    | .ok [] => .ok .noRows
    | .ok rows => do
      let report ← Schema.validateBatch rows schema (min workers limit)
      return .checked report file importName now

end SheetIntake
