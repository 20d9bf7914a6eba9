import PlaybookTidy.Json.Basic
import PlaybookTidy.Run

/-!
Results as JSON.
-/

namespace PlaybookTidy

def Json.nat (n : Nat) : Json := .number n

def Rule.toJson (r : Rule) : Json := .string r.id

def Replacements.members (n : Replacements) : List (String × Json) :=
  [("fqcn", .nat n.fqcn), ("truthy", .nat n.truthy), ("names", .nat n.names)]

def Replacements.toJson (n : Replacements) : Json := .object n.members

def TableRow.toJson (r : TableRow) : Json :=
  .object [("short", .string r.short), ("fqcn", .string r.fqcn), ("source", .string r.source.id)]

def FileReport.toJson (r : FileReport) : Json :=
  .object [("file", .string r.file), ("changed", .bool r.changed), ("applied", .bool r.applied),
    ("replacements", r.replacements.toJson)]

def SkippedFile.toJson (s : SkippedFile) : Json :=
  .object [("file", .string s.file), ("reason", .string s.reason)]

def Summary.toJson (s : Summary) : Json :=
  .object [("total", .nat s.total), ("changed", .nat s.changed), ("unchanged", .nat s.unchanged),
    ("skipped", .nat s.skipped), ("replacements", s.replacements.toJson)]

def Json.optionalList (key : String) (items : List Json) : List (String × Json) :=
  if items.isEmpty then [] else [(key, .array items)]

def FixResult.members (r : FixResult) : List (String × Json) :=
  [("root", .string r.root), ("dry_run", .bool r.dryRun),
    ("rules", .array (r.rules.map Rule.toJson)), ("files", .array (r.files.map FileReport.toJson))] ++
  Json.optionalList "skipped" (r.skipped.map SkippedFile.toJson) ++
  [("summary", r.summary.toJson)]

def FixResult.toJson (r : FixResult) : Json := .object r.members

def Defaults.toJson (d : Defaults) : Json :=
  .object [("patterns", .strings d.patterns), ("exclude", .strings d.exclude),
    ("rules", .array (d.rules.map Rule.toJson)),
    ("fqcn", .object (d.fqcn.entries.map fun e => (e.1, .string e.2)))]

def Config.toJson (d : Defaults) : Json := .object [("defaults", d.toJson)]

end PlaybookTidy
