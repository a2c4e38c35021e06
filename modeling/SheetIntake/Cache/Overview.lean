import SheetIntake.Cache.Task

/-!
# All that the cache holds

The overview shows every key with its content. Texts that are documents are shown as such, and so
are the data of task records. Clearing the cache forgets all keys.

`forgetAccount` deletes the answers about an account that the service keeps in the cache.
-/

namespace SheetIntake.Cache

def shownText (text : String) : Value :=
  match Json.read text with
  | .ok v => v
  | .error _ => .str text

/-- The content of a key of a kind, as the overview shows it. -/
def shownContent (key : String) : Option String → Job protocol Value
  | some "string" => do
    let text := (← get key).getD ""
    return if text = "" then .null else shownText text
  | some "hash" => do
    let fields ← fields key
    return .object (fields.map (fun f =>
      (f.1, if f.1 = "data" then shownText f.2 else .str f.2)))
  | some "set" => do return .list ((← members key).map .str)
  | some "list" => do return .list ((← items key).map .str)
  | some "zset" => do
    return .list ((← scores key).map (fun m => .list [.str m.1, .float m.2]))
  | other => return .str ("Unsupported type: " ++ other.getD "none")

def overview : Job protocol Value := do
  let keys ← keys "*"
  let entries ← keys.mapM (fun key => do
    let kind ← kind key
    return (key, ← shownContent key kind))
  return .object entries

def clearAll : Job protocol Bool :=
  tryCatch (do clear; return true) (fun fault =>
    match fault with
    | .cacheUnreachable => return false
    | fault => throw fault)

/-- The patterns of the keys under which answers about an account are kept. -/
def accountPatterns (username : String) (lists : Bool) : List String :=
  (if username = "" then []
    else [username ++ ":user_info", "*:user_info:" ++ username ++ ":*",
      username ++ ":user_info:*"]) ++
  (if lists then ["all_users:*"] else [])

/-- Deletes the answers that are kept about an account, and those that list accounts. -/
def forgetAccount (username : String) (lists : Bool) : Job protocol Unit :=
  (accountPatterns username lists).forM (fun pattern => do
    let keys ← keys pattern
    keys.forM (fun key => do
      let _ ← delete [key]))

end SheetIntake.Cache
