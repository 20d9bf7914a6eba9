import PlaybookTidy.Failure
import PlaybookTidy.Sorted
import PlaybookTidy.Text.Blank

/-!
The table of module names: which short name stands for which fully-qualified collection name.
Configured entries replace built-in ones in place, and further ones follow in the order of their
names.
-/

namespace PlaybookTidy

structure ModuleName where
  short : String
  fqcn : String
  deriving DecidableEq, Repr

inductive Source
  | builtin
  | override
  | custom
  deriving DecidableEq, Repr

def Source.id : Source → String
  | builtin => "builtin"
  | override => "override"
  | custom => "custom"

structure TableRow extends ModuleName where
  source : Source
  deriving DecidableEq, Repr

/-- The configured entries, in increasing order of their short names. -/
structure Overrides where
  entries : List (String × String)
  increasing : Increasing entries
  deriving DecidableEq

namespace Overrides

def empty : Overrides := ⟨[], List.Pairwise.nil⟩

def insert (o : Overrides) (short fqcn : String) : Overrides :=
  ⟨insertKey short fqcn o.entries, increasing_insertKey short fqcn o.increasing⟩

def get? (o : Overrides) (short : String) : Option String := o.entries.lookup short

end Overrides

namespace ModuleTable

def inCollection (collection : String) (shorts : List String) : List ModuleName :=
  shorts.map fun s => ⟨s, collection ++ "." ++ s⟩

/-- The built-in entries, in the order in which they are applied. -/
def builtin : List ModuleName :=
  inCollection "ansible.builtin" ["apt", "yum", "package", "service", "systemd", "copy",
    "template", "file", "lineinfile", "user", "group", "command", "shell", "debug", "set_fact",
    "include_tasks", "import_tasks", "fail", "assert", "wait_for", "get_url", "uri", "pip"] ++
  inCollection "community.general" ["npm"] ++
  inCollection "ansible.builtin" ["git", "cron"] ++
  inCollection "ansible.posix" ["sysctl", "synchronize"] ++
  inCollection "community.mysql" ["mysql_db", "mysql_user"] ++
  inCollection "community.postgresql" ["postgresql_db", "postgresql_user"]

/-- An ASCII letter or underscore, then ASCII letters, digits and underscores. -/
def isShortName (s : String) : Bool :=
  match s.toList with
  | [] => false
  | c :: cs => (c.isAlpha || c = '_') && cs.all fun c => c.isAlphanum || c = '_'

/-- A name that is not empty and holds no white space. -/
def isReplacement (s : String) : Bool := s ≠ "" && !s.toList.any Text.isBlank

def invalidRow (short : String) (value problem : String) : Failure :=
  { cause := .invalidValue ("defaults.fqcn." ++ short) (some value) problem }

/-- The fault of an entry, if it has one. That of the short name comes first. -/
def fault? (short fqcn : String) : Option Failure :=
  if !isShortName short then
    some (invalidRow short short "Module name must match [A-Za-z_][A-Za-z0-9_]*")
  else if !isReplacement fqcn then
    some (invalidRow short fqcn "Replacement must be a non-empty name without whitespace")
  else none

/-- The built-in rows with the overrides in place, then the other overrides. -/
def merged (o : Overrides) : List TableRow :=
  (builtin.map fun m =>
    match o.get? m.short with
    | some f => ⟨⟨m.short, f⟩, .override⟩
    | none => ⟨m, .builtin⟩) ++
  (o.entries.filter fun e => !builtin.any fun m => m.short = e.1).map fun e =>
    ⟨⟨e.1, e.2⟩, .custom⟩

/-- The first row whose replacement is a short name of the table: another row, or a second
application, would rewrite what it wrote. -/
def chained? (rows : List TableRow) : Option TableRow :=
  rows.find? fun r => rows.any fun q => q.short = r.fqcn

def chainedRow (r : TableRow) : Failure :=
  (invalidRow r.short r.fqcn
    ("Replacement '" ++ r.fqcn ++ "' is itself a module name in the FQCN table")).withHint
    "Use a fully-qualified name such as 'namespace.collection.module'"

/-- The table in effect, or the first fault of the overrides. -/
def effective (o : Overrides) : Except Failure (List TableRow) :=
  match o.entries.findSome? fun e => fault? e.1 e.2 with
  | some e => .error e
  | none =>
    match chained? (merged o) with
    | some r => .error (chainedRow r)
    | none => .ok (merged o)

end ModuleTable

end PlaybookTidy
