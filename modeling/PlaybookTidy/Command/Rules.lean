import PlaybookTidy.Command.Arguments
import PlaybookTidy.Command.Setup
import PlaybookTidy.Report

/-!
The command that shows the rules, the file patterns and the table of module names in effect.
-/

namespace PlaybookTidy.Command

def ruleInfo (enabled : List Rule) (r : Rule) : Json :=
  .object [("id", .string r.id), ("lint_rule", .string r.lintRule),
    ("description", .string r.description), ("enabled", .bool (r ∈ enabled))]

def rulesData (s : Setup) (table : List TableRow) : Json :=
  .object ([("command", .string "rules")] ++ s.configMember ++
    [("rules", .array (Rule.all.map (ruleInfo s.defaults.rules))),
      ("patterns", .strings s.defaults.patterns)] ++
    Json.optionalList "exclude" (s.defaults.exclude.map .string) ++
    [("fqcn", .array (table.map TableRow.toJson))])

def rules (o : RulesOptions) (t : Tree) : Except Failure (Json × Int) := do
  let s ← Setup.prepare t o.path o.config
  let table ← ModuleTable.effective s.defaults.fqcn
  return (rulesData s table, 0)

end PlaybookTidy.Command
