/-!
What can go wrong, and how serious it is. A failure has a code, a message and the values it is
about; hints say what to do.
-/

namespace PlaybookTidy

inductive Cause
  | invalidJson (path error : String)
  | invalidValue (key : String) (value : Option String) (problem : String)
  | invalidArgument (field problem : String) (id : Option String) (tried : Option (List String))
  | invalidPattern (pattern error : String)
  | io (error : String) (context : Option String)
  | json (error : String) (context : Option String)
  | unexpected (error : String)
  deriving DecidableEq, Repr

structure Failure where
  cause : Cause
  hints : List String := []
  retryable : Option Bool := none
  deriving DecidableEq, Repr

namespace Cause

def code : Cause → String
  | invalidJson .. => "config.invalid_json"
  | invalidValue .. => "config.invalid_value"
  | invalidArgument .. => "validation.invalid_argument"
  | invalidPattern .. => "validation.invalid_pattern"
  | io .. => "internal.io_error"
  | json .. => "internal.json_error"
  | unexpected .. => "internal.unexpected"

def message : Cause → String
  | invalidJson .. => "Invalid JSON in configuration"
  | invalidValue .. => "Invalid configuration value"
  | invalidArgument .. => "Invalid argument"
  | invalidPattern pattern _ => "Invalid glob pattern '" ++ pattern ++ "'"
  | io .. => "IO error"
  | json .. => "JSON error"
  | unexpected .. => "Unexpected error"

/-- A fault of the caller exits with 2, any other with 1. -/
def exitCode : Cause → Nat
  | invalidJson .. | invalidValue .. | invalidArgument .. | invalidPattern .. => 2
  | io .. | json .. | unexpected .. => 1

end Cause

namespace Failure

def withHint (e : Failure) (hint : String) : Failure := { e with hints := e.hints ++ [hint] }

def invalidPattern (pattern error : String) : Failure := { cause := .invalidPattern pattern error }

def unknownRule (name : String) : Failure :=
  { cause := .invalidArgument "rule"
      ("Unknown rule '" ++ name ++ "'. Use: fqcn, truthy, names") (some name) none }

def notADirectory (path : String) : Failure :=
  { cause := .invalidArgument "path" ("Not a directory: " ++ path) (some path) none }

def configNotFound (path : String) : Failure :=
  { cause := .invalidArgument "config" ("Config file not found: " ++ path) (some path) none }

end Failure

end PlaybookTidy
