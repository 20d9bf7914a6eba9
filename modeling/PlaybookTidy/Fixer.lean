import PlaybookTidy.Config.Basic
import PlaybookTidy.Pass.Naming
import PlaybookTidy.Pass.Qualify
import PlaybookTidy.Pass.Truthy

/-!
The passes of a selection of rules, applied one after the other to a text.
-/

namespace PlaybookTidy

structure Fixer where
  rules : List Rule
  table : List TableRow

namespace Fixer

/-- The patterns that are compiled for a table, in their order. Those of all passes are among them,
whatever the rules are. -/
def patterns (table : List TableRow) : List String :=
  table.map (fun r => Qualify.pattern r.short) ++ Truthy.patterns ++ Naming.patterns

/-- The fixer for a selection of rules; without one the configured rules are applied. -/
def ofDefaults [Regex.Compiler] (d : Defaults) (only : Option (List Rule)) :
    Except Failure Fixer :=
  match ModuleTable.effective d.fqcn with
  | .error e => .error e
  | .ok table =>
    match (patterns table).findSome? Regex.fault? with
    | some e => .error e
    | none => .ok { rules := Rule.normalize (only.getD d.rules), table }

def applyRule (fx : Fixer) (r : Rule) (ls : List Line) : List Line × Nat :=
  match r with
  | .fqcn => Qualify.rewrite (fx.table.map TableRow.toModuleName) ls
  | .truthy => Truthy.rewrite ls
  | .names => Naming.rewrite ls

def fixLines (fx : Fixer) (ls : List Line) : List Line × Replacements :=
  fx.rules.foldl (fun (ls, n) r =>
    let (out, k) := fx.applyRule r ls
    (out, n.record r k)) (ls, {})

def fixText (fx : Fixer) (s : String) : String × Replacements :=
  let (ls, n) := fx.fixLines (Line.split s.toList)
  (String.ofList (Line.join ls), n)

end Fixer

end PlaybookTidy
