import SheetIntake.Text.Utf8
import SheetIntake.Value.Display

/-!
# Faults

Everything that can go wrong is a cause of the type `Fault`. `Fault.kind` names the family of a
cause as clients see it, `Fault.message` words it, and `Fault.inspect` shows both, as they stand in
records of failed tasks.
-/

namespace SheetIntake

inductive Fault where
  | missing (key : Value)
  /-- A value is of a kind that does not have the operation. -/
  | wrongKind
  /-- A value of this kind holds nothing that could be looked for. -/
  | notAContainer (kindName : String)
  | noLength (kindName : String)
  /-- A number that is not finite has no such value. -/
  | notFinite (reason : String)
  /-- The receiver of a call has no such operation. -/
  | noSuchOperation (owner operation : String)
  | outOfRange
  | unbound
  | divisionByZero
  /-- A definition goes round in circles. -/
  | endlessRecursion
  | integerTooLarge
  | notANumber (text : String)
  | notAnInteger (text : String)
  /-- A formula node is not of the kind that its place asks for. -/
  | wrongNode (expected : String)
  /-- The formula service answered with a node of an unknown kind. -/
  | unknownNode (kind : Int)
  /-- A definition refers to a column that is not defined. -/
  | unknownColumn (name : Value)
  | cyclicDefinitions
  | unsupportedFormat
  | illegalCharacter
  | columnOutOfRange (index : Nat)
  | fieldTooLarge (limit : Nat)
  | notAWorkbook
  | undecodable (fault : Text.Utf8Fault)
  /-- A setting is neither a text nor a list. -/
  | notAList (value : Value)
  | invalidSchema (reason : String)
  /-- A reference inside a schema cannot be resolved. -/
  | unresolvable (reason : String)
  | uncacheable (kindName : String)
  | wrongCacheKind
  | invalidExpiry
  | noKeysGiven
  | cacheUnreachable
  | cacheRefused (host port reason : String)
  | malformedJson (reason : String)
  | registryUnreachable
  | databaseNotSet (reason : String)
  | brokerUnreachable
  /-- The request is answered with a status and a detail. -/
  | rejected (status : Nat) (detail : Value)
  /-- Fields of a request are missing or of the wrong form. -/
  | invalidFields (names : List String)
  | malformedToken
  | expiredToken
  | wrongSignature
  | wrongAlgorithm
  | nulInPassword
  | constraintViolated (text : String)
  | commitFailed (text : String)
  | retriesExhausted
  | migrationRefused (reason : String)
  | notImplemented
  | outdatedRuntime (reason : String)
  | fileNotFound (path : String)
  | unreadableUpload (reason : String)
  | emptyTable
  deriving Inhabited

namespace Fault

/-- The family of a fault, as clients see it. -/
def kind : Fault → String
  | .missing _ => "KeyError"
  | .wrongKind | .notAContainer _ | .noLength _ => "TypeError"
  | .noSuchOperation _ _ => "AttributeError"
  | .outOfRange => "IndexError"
  | .unbound => "UnboundLocalError"
  | .divisionByZero => "ZeroDivisionError"
  | .endlessRecursion => "RecursionError"
  | .integerTooLarge | .notFinite _ => "OverflowError"
  | .notANumber _ | .notAnInteger _ | .wrongNode _ | .unknownNode _ | .unknownColumn _
  | .cyclicDefinitions | .notAList _ | .databaseNotSet _ | .columnOutOfRange _ => "ValueError"
  | .unsupportedFormat | .notImplemented => "NotImplementedError"
  | .illegalCharacter => "IllegalCharacterError"
  | .notAWorkbook => "BadZipFile"
  | .undecodable _ => "UnicodeDecodeError"
  | .invalidSchema _ => "SchemaError"
  | .unresolvable _ => "_WrappedReferencingError"
  | .uncacheable _ => "DataError"
  | .wrongCacheKind | .invalidExpiry | .noKeysGiven => "ResponseError"
  | .cacheUnreachable | .cacheRefused _ _ _ | .brokerUnreachable => "ConnectionError"
  | .malformedJson _ => "JSONDecodeError"
  | .registryUnreachable => "ServerSelectionTimeoutError"
  | .rejected _ _ => "HTTPException"
  | .invalidFields _ => "ValidationError"
  | .malformedToken => "DecodeError"
  | .expiredToken => "ExpiredSignatureError"
  | .wrongSignature => "InvalidSignatureError"
  | .wrongAlgorithm => "InvalidAlgorithmError"
  | .nulInPassword => "PasswordValueError"
  | .constraintViolated _ => "IntegrityError"
  | .commitFailed _ | .outdatedRuntime _ => "RuntimeError"
  | .retriesExhausted => "RetryError"
  | .migrationRefused _ => "CommandError"
  | .fileNotFound _ => "FileNotFoundError"
  | .unreadableUpload _ => "OSError"
  | .emptyTable => "NoDataError"
  | .fieldTooLarge _ => "Error"

def message : Fault → String
  | .missing key => key.inspect
  | .wrongKind | .outOfRange | .unbound | .divisionByZero | .endlessRecursion | .illegalCharacter
  | .malformedToken | .expiredToken | .wrongSignature | .wrongAlgorithm | .retriesExhausted
  | .invalidFields _ => ""
  | .notAContainer kindName => "argument of type '" ++ kindName ++ "' is not iterable"
  | .noLength kindName => "object of type '" ++ kindName ++ "' has no len()"
  | .noSuchOperation owner operation =>
    "'" ++ owner ++ "' object has no attribute '" ++ operation ++ "'"
  | .integerTooLarge => "int too large to convert to float"
  | .notANumber text => "could not convert string to float: " ++ Text.quoted text
  | .notAnInteger text => "invalid literal for int() with base 10: " ++ Text.quoted text
  | .wrongNode expected => "AST must be of type '" ++ expected ++ "'"
  | .unknownNode kind => "Unknown AST type: " ++ toString kind
  | .unknownColumn name => "no such vertex: " ++ name.inspect
  | .cyclicDefinitions => "The dependency graph contains cyclic dependencies."
  | .unsupportedFormat => "Unsupported file format. Only .xlsx, .xls, and .csv are supported."
  | .columnOutOfRange index => "Invalid column index " ++ toString index
  | .notAWorkbook => "File is not a zip file"
  | .undecodable fault => fault.message
  | .notAList value => value.text
  | .invalidSchema reason | .unresolvable reason | .malformedJson reason | .databaseNotSet reason
  | .migrationRefused reason | .outdatedRuntime reason | .unreadableUpload reason
  | .notFinite reason => reason
  | .uncacheable kindName =>
    "Invalid input of type: '" ++ kindName ++ "'. Convert to a bytes, string, int or float first."
  | .wrongCacheKind => "WRONGTYPE Operation against a key holding the wrong kind of value"
  | .invalidExpiry => "invalid expire time in 'set' command"
  | .noKeysGiven => "wrong number of arguments for 'del' command"
  | .cacheUnreachable => "Connection refused"
  | .cacheRefused host port reason =>
    "Could not connect to Redis at " ++ host ++ ":" ++ port ++ " - " ++ reason
  | .registryUnreachable => "mongo is down"
  | .brokerUnreachable => "broker is down"
  | .rejected status detail => toString status ++ ": " ++ detail.text
  | .nulInPassword => "bcrypt does not allow NULL bytes in password"
  | .constraintViolated text => "(builtins.Exception) " ++ text
  | .commitFailed text => text
  | .notImplemented => "Method not implemented!"
  | .fileNotFound path => "[Errno 2] No such file or directory: " ++ Text.quoted path
  | .emptyTable => "empty csv"
  | .fieldTooLarge limit => "field larger than field limit (" ++ toString limit ++ ")"

/-- A fault with its family, as records show it. -/
def inspect (f : Fault) : String :=
  match f with
  | .missing key => "KeyError(" ++ key.inspect ++ ")"
  | .invalidSchema reason => "<SchemaError: " ++ Text.quoted reason ++ ">"
  | f => f.kind ++ "(" ++ Text.quoted f.message ++ ")"

end Fault

end SheetIntake
