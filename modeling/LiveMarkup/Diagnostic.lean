import LiveMarkup.Json.Value

/-!
# Diagnostics

Nothing on the way from a template to a tree fails. A defect that can be passed over is turned into
a `Diagnostic` and handed to a sink; it has a severity, a text and a JSON form.
-/

namespace LiveMarkup

/-- How grave a diagnostic is. -/
inductive Severity
  | warning
  | error
  deriving DecidableEq, Repr

namespace Severity

/-- The name of a severity. -/
def name : Severity → String
  | warning => "Warning"
  | error => "Error"

/-- The level at which a diagnostic of this severity is logged. -/
def logLevel : Severity → String
  | warning => "WARN"
  | error => "ERROR"

/-- Graver than a warning. -/
def isAboveWarning : Severity → Bool
  | warning => false
  | error => true

end Severity

/-- A defect that was passed over. -/
inductive Diagnostic
  /-- A placeholder without a value; the default value stands in its place. -/
  | missingPlaceholder (key : String)
  /-- A loop over something that is not an array. -/
  | loopTargetNotSequence (key : String)
  /-- A marker that no pass knows, left as it is. -/
  | unmatchedMarker (marker : String)
  /-- A condition that could not be read or evaluated, and counts as false. -/
  | conditionFailed (expression message : String)
  /-- Markup with more than one root, of which the first is shown. -/
  | multipleRoots (count : Nat)
  /-- Markup without any node. -/
  | emptyTemplate
  | fetchFailed (locator message : String)
  | storageFailed (key message : String)
  | unknownEventHandler (name : String)
  /-- A failed middleware, whose change is left out. -/
  | middlewareFailed (position : Nat) (message : String)
  /-- A state change that arrived while the session was still refreshing. -/
  | reentrantRefresh
  deriving DecidableEq, Repr

namespace Diagnostic

/-- How grave it is. -/
def severity : Diagnostic → Severity
  | conditionFailed .. | fetchFailed .. | storageFailed .. | middlewareFailed .. => .error
  | _ => .warning

/-- The text that is logged. -/
def message : Diagnostic → String
  | missingPlaceholder key => "Placeholder \"" ++ key ++ "\" has no matching value"
  | loopTargetNotSequence key => "Expected an array for \"" ++ key ++ "\""
  | unmatchedMarker marker => "Unmatched marker " ++ marker
  | conditionFailed expression message =>
    "Error evaluating condition `" ++ expression ++ "`: " ++ message
  | multipleRoots count => "Template can only have one root element, found " ++ toString count
  | emptyTemplate => "Template produced no nodes"
  | fetchFailed locator message => "Error fetching template " ++ locator ++ ": " ++ message
  | storageFailed key message => "Storage failed for " ++ key ++ ": " ++ message
  | unknownEventHandler name => "No event handler named \"" ++ name ++ "\""
  | middlewareFailed position message =>
    "State middleware " ++ toString position ++ " failed: " ++ message
  | reentrantRefresh => "Skipped a re-render requested during a re-render"

/-- A JSON object with the name of a kind and further fields. -/
def tagged (kind : String) (fields : List (String × Value)) : Value :=
  .object (Fields.ofList (("kind", .string kind) :: fields))

/-- The JSON form. -/
def toJson : Diagnostic → Value
  | missingPlaceholder key => tagged "missingPlaceholder" [("key", .string key)]
  | loopTargetNotSequence key => tagged "loopTargetNotSequence" [("key", .string key)]
  | unmatchedMarker marker => tagged "unmatchedMarker" [("marker", .string marker)]
  | conditionFailed expression message =>
    tagged "conditionFailed" [("expression", .string expression), ("message", .string message)]
  | multipleRoots count => tagged "multipleRoots" [("count", .number (.int count))]
  | emptyTemplate => tagged "emptyTemplate" []
  | fetchFailed locator message =>
    tagged "fetchFailed" [("locator", .string locator), ("message", .string message)]
  | storageFailed key message =>
    tagged "storageFailed" [("key", .string key), ("message", .string message)]
  | unknownEventHandler name => tagged "unknownEventHandler" [("name", .string name)]
  | middlewareFailed position message =>
    tagged "middlewareFailed"
      [("position", .number (.int position)), ("message", .string message)]
  | reentrantRefresh => tagged "reentrantRefresh" []

end Diagnostic

end LiveMarkup
