import SheetIntake.Service.Settings

/-!
# The application

What the service registers: its routes, with the name of their handler and their tags, and which
origins may call it.
-/

namespace SheetIntake

structure Route where
  method : String
  path : String
  handler : String
  tags : List String
  deriving DecidableEq, Repr

namespace Application

def title : String :=
  "Typechecking API"

def group (s : Settings) (name : String) (routes : List (String × String × String)) : List Route :=
  routes.map (fun r =>
    { method := r.1, path := s.apiPath ++ "/" ++ name ++ r.2.1, handler := r.2.2,
      tags := [name, "api"] })

def routes (s : Settings) : List Route :=
  group s "login" [("POST", "/access-token", "login_access_token"),
    ("GET", "/test-token", "test_token")] ++
  group s "cache" [("GET", "", "get_cache"), ("DELETE", "/clear", "clear_cache")] ++
  group s "users" [("GET", "/info", "get_user_info"),
    ("GET", "/search/\x7busername\x7d", "get_user"), ("GET", "/search", "get_all_users"),
    ("POST", "/create", "create_user"), ("PATCH", "/update/\x7busername\x7d", "update_user"),
    ("DELETE", "/delete/\x7busername\x7d", "delete_user")] ++
  group s "schemas" [("POST", "/upload/\x7bimport_name\x7d", "upload_schema"),
    ("GET", "/status", "get_schema_task"),
    ("DELETE", "/remove/\x7bimport_name\x7d", "remove_schema")] ++
  group s "validation" [("POST", "/upload/\x7bimport_name\x7d", "validate"),
    ("GET", "/status", "get_validation_status")] ++
  group s "healthcheck" [("GET", "", "healthcheck"), ("GET", "/simple", "simple_healthcheck")]

def registered (s : Settings) : Value :=
  let texts (xs : List String) : Value := .list (xs.map .str)
  let origins : Value := .object [("allow_origins", texts s.origins),
    ("allow_credentials", .bool true), ("allow_methods", texts ["*"]),
    ("allow_headers", texts ["*"])]
  .object [
    ("options", .object [("title", .str title),
      ("openapi_url", .str (s.apiPath ++ "/openapi.json"))]),
    ("middleware",
      .list (if s.origins.isEmpty then [] else [.list [.str "CORSMiddleware", origins]])),
    ("routes", .list ((routes s).map (fun r => texts ([r.method, r.path, r.handler] ++ r.tags))))]

end Application

end SheetIntake
