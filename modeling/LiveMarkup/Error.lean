import LiveMarkup.Json.Reader

/-!
# Errors

The causes for which a condition is not evaluated, a template is not fetched, a state is not stored
or restored and a configuration is not read, each with its text.
-/

namespace LiveMarkup

/-- What is wrong with the text of a condition. -/
inductive ParseFault
  /-- `found` stands where `expected` should. -/
  | unexpectedToken (expected found : String)
  /-- The text ends where something is expected. -/
  | unexpectedEnd (expected : Option String)
  | unterminatedString
  | invalidNumber (literal : String)
  /-- Text is left over behind the condition. -/
  | trailingInput (remaining : String)
  deriving DecidableEq, Repr

/-- The text of a fault. -/
def ParseFault.message : ParseFault → String
  | unexpectedToken expected found => "Expected " ++ expected ++ ", found " ++ found
  | unexpectedEnd none => "Unexpected end of expression"
  | unexpectedEnd (some expected) =>
    "Unexpected end of expression (expected '" ++ expected ++ "')"
  | unterminatedString => "Unterminated string literal"
  | invalidNumber literal => "Invalid number literal '" ++ literal ++ "'"
  | trailingInput remaining => "Trailing input '" ++ remaining ++ "'"

/-- A fault in a condition, and the column at which it is, counted from one. -/
structure ParseError where
  column : Nat
  fault : ParseFault
  deriving DecidableEq, Repr

/-- The text of a parse error. -/
def ParseError.message (e : ParseError) : String :=
  "Parse error at column " ++ toString e.column ++ ": " ++ e.fault.message

/-- Why a condition has no value. -/
inductive EvalError
  | parse (error : ParseError)
  | undefinedIdentifier (name : String)
  deriving DecidableEq, Repr

/-- The text of an evaluation error. -/
def EvalError.message : EvalError → String
  | parse error => error.message
  | undefinedIdentifier name => "'" ++ name ++ "' is not defined"

/-- Why a template is not fetched. -/
inductive FetchError
  | notFound (locator : String)
  /-- The locator leads out of the source. -/
  | invalidLocator (locator : String)
  | unreadable (locator : String)
  /-- The source itself reports a failure. -/
  | source (message : String)
  deriving DecidableEq, Repr

/-- The text of a fetch error. -/
def FetchError.message : FetchError → String
  | notFound locator => "Template not found: " ++ locator
  | invalidLocator locator => "Template locator escapes the source root: " ++ locator
  | unreadable locator => "Failed to read template " ++ locator
  | source message => "Template source failed: " ++ message

/-- Why a state is not stored or restored. -/
inductive StorageError
  | unavailable (key : String)
  /-- What is stored is not a state in JSON. -/
  | notJson (key : String)
  deriving DecidableEq, Repr

/-- The text of a storage error. -/
def StorageError.message : StorageError → String
  | unavailable key => "Storage I/O failed for key " ++ key
  | notJson key => "Stored value for key " ++ key ++ " is not valid JSON"

/-- Any error of this library. -/
inductive Error
  | evaluation (error : EvalError)
  | fetch (error : FetchError)
  | storage (error : StorageError)
  | configuration (fault : ReadFault)
  deriving DecidableEq, Repr

namespace Error

/-- The text of an error. -/
def message : Error → String
  | evaluation error => error.message
  | fetch error => error.message
  | storage error => error.message
  | configuration _ => "Invalid engine configuration"

/-- The text of an error, followed by the text of its cause if this library names one. -/
def chain : Error → List String
  | evaluation (.parse error) => [error.message, error.fault.message]
  | error => [error.message]

end Error

end LiveMarkup
