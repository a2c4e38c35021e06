import SheetIntake.Upload.Table

/-!
# Uploaded files

An uploaded file has a name, perhaps a content type and a size, and a content that can be read or
not. The end of its name tells how its rows are read. Whatever goes wrong is worded in one message.
-/

namespace SheetIntake

structure Upload where
  name : Value
  contentType : Value := .null
  size : Value := .null
  /-- The content, or why it cannot be read. -/
  content : Except String FileContent

namespace Upload

def extensions : List String :=
  [".csv", ".xls", ".xlsx"]

/-- Whether a name has a known end. A file without a name is not known. -/
def isSupported (name : Value) : Except Fault Bool :=
  if name.truthy then do
    let s ← name.receiveText "lower"
    return extensions.any (fun e => Text.endsWith (Text.lowerBasic s) e)
  else .ok false

/-- The text of bytes: of eight bit characters where they do not follow the usual encoding. -/
def decoded (bytes : List UInt8) : String :=
  match Text.decodeUtf8 bytes with
  | .ok text => text
  | .error _ => Text.decodeLatin1 bytes

def csvContent : FileContent → Except String (List Value)
  | .bytes bytes =>
    match csvRows (decoded bytes) with
    | .ok rows => .ok rows
    | .error fault => .error ("Error processing CSV file: " ++ fault.message)
  | .workbook _ => .error "Error processing CSV file: empty csv"

def workbookContent (content : FileContent) : Except String (List Value) :=
  match content.workbookSheets with
  | .ok sheets => .ok ((sheets.head?.map sheetRows).getD [])
  | .error fault => .error ("Error processing Excel file: " ++ fault.message)

def rows (u : Upload) : Except String (List Value) :=
  match isSupported u.name with
  | .error fault => .error ("Error processing file: " ++ fault.message)
  | .ok false =>
    .error ("Unsupported file type. Supported types: " ++ String.intercalate ", " extensions)
  | .ok true =>
    match u.content with
    | .error reason => .error ("Error processing file: " ++ reason)
    | .ok content =>
      if Text.endsWith (Text.lowerBasic u.name.text) ".csv" then csvContent content
      else workbookContent content

def info (u : Upload) : Except Fault Value := do
  let supported ← isSupported u.name
  return .object [("filename", u.name), ("content_type", u.contentType), ("size", u.size),
    ("is_supported", .bool supported)]

end Upload

end SheetIntake
