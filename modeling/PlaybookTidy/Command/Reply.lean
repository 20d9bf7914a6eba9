import PlaybookTidy.Failure
import PlaybookTidy.Json.Printer

/-!
What a command answers: a JSON envelope around its data or around the failure, and an exit code.
-/

namespace PlaybookTidy

namespace Cause

/-- The values that a cause is about. -/
def details : Cause → Json
  | invalidJson path error => .object [("path", .string path), ("error", .string error)]
  | invalidValue key value problem =>
    .object ([("key", .string key)] ++ Json.optional "value" (value.map .string) ++
      [("problem", .string problem)])
  | invalidArgument field problem id tried =>
    .object ([("field", .string field), ("problem", .string problem)] ++
      Json.optional "id" (id.map .string) ++ Json.optional "tried" (tried.map .strings))
  | invalidPattern pattern error => .object [("pattern", .string pattern), ("error", .string error)]
  | io error context | json error context =>
    .object ([("error", .string error)] ++ Json.optional "context" (context.map .string))
  | unexpected error => .object [("error", .string error)]

end Cause

structure FailureReport where
  code : String
  message : String
  details : Json
  hints : List String := []
  retryable : Option Bool := none

def Failure.report (e : Failure) : FailureReport where
  code := e.cause.code
  message := e.cause.message
  details := e.cause.details
  hints := e.hints
  retryable := e.retryable

/-- A failure inside the envelope. Hints are left out if there are none. -/
def FailureReport.toJson (e : FailureReport) : Json :=
  .object ([("code", .string e.code), ("message", .string e.message),
      ("details", e.details.canonical)] ++
    Json.optional "hints" (if e.hints = [] then none else
      some (.array (e.hints.map fun h => .object [("message", .string h)]))) ++
    Json.optional "retryable" (e.retryable.map .bool))

structure Reply where
  exitCode : Nat
  text : String
  deriving DecidableEq, Repr

namespace Reply

/-- The envelope of a result. Data have their members in the order of the keys. -/
def envelope : Except FailureReport Json → Json
  | .ok data => .object [("success", .bool true), ("data", data.canonical)]
  | .error e => .object [("success", .bool false), ("error", e.toJson)]

def printEnvelope (r : Except FailureReport Json) : String := (envelope r).print ++ "\n"

def print (r : Except Failure Json) : String := printEnvelope (r.mapError Failure.report)

def clampExitCode (code : Int) : Nat := (min code 255).toNat

/-- The reply to a result, which has an exit code of its own if it is no failure. -/
def ofResult : Except Failure (Json × Int) → Reply
  | .ok (data, code) => ⟨clampExitCode code, print (.ok data)⟩
  | .error e => ⟨clampExitCode e.cause.exitCode, print (.error e)⟩

end Reply

end PlaybookTidy
