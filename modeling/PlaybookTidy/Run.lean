import PlaybookTidy.Discovery
import PlaybookTidy.Fixer
import PlaybookTidy.Tree.Files

/-!
Fixing files. A file is read, rewritten and, unless the run is dry, replaced if that changed it. A
run goes through its files in order; what cannot be read is skipped, and a failed write ends it.
-/

namespace PlaybookTidy

structure FileReport where
  file : String
  changed : Bool
  applied : Bool
  replacements : Replacements
  deriving DecidableEq, Repr

structure SkippedFile where
  file : String
  reason : String
  deriving DecidableEq, Repr

inductive Outcome
  | report (r : FileReport)
  | skip (s : SkippedFile)
  deriving DecidableEq, Repr

structure Summary where
  total : Nat
  changed : Nat
  unchanged : Nat
  skipped : Nat
  replacements : Replacements
  deriving DecidableEq, Repr

structure FixResult where
  root : String
  dryRun : Bool
  rules : List Rule
  files : List FileReport
  skipped : List SkippedFile
  summary : Summary
  deriving DecidableEq, Repr

namespace Outcome

def report? : Outcome → Option FileReport
  | report r => some r
  | skip _ => none

def skip? : Outcome → Option SkippedFile
  | report _ => none
  | skip s => some s

end Outcome

def Summary.add (n : Summary) (r : FileReport) : Summary :=
  { n with
    changed := if r.changed then n.changed + 1 else n.changed
    unchanged := if r.changed then n.unchanged else n.unchanged + 1
    replacements := n.replacements + r.replacements }

/-- What a run has gathered so far. Skipped files are counted at its end. -/
structure Progress where
  files : List FileReport
  skipped : List SkippedFile
  summary : Summary

namespace Progress

def start (total : Nat) : Progress := ⟨[], [], ⟨total, 0, 0, 0, {}⟩⟩

def add (g : Progress) : Outcome → Progress
  | .report r => { g with files := g.files ++ [r], summary := g.summary.add r }
  | .skip s => { g with skipped := g.skipped ++ [s] }

end Progress

namespace Fixer

def rewriteFile (fx : Fixer) (dryRun : Bool) (p : Path) (file former : String) (t : Tree) :
    Except Failure FileReport × Tree :=
  let (text, replacements) := fx.fixText former
  if text = former then (.ok ⟨file, false, false, replacements⟩, t)
  else if dryRun then (.ok ⟨file, true, false, replacements⟩, t)
  else
    match t.writeAtomic p text ("write " ++ file) with
    | (.error e, t) => (.error e, t)
    | (.ok (), t) => (.ok ⟨file, true, true, replacements⟩, t)

def fixFile (fx : Fixer) (root : Path) (dryRun : Bool) (p : Path) (t : Tree) :
    Except Failure FileReport × Tree :=
  let file := p.relativeTo root
  match t.read p ("read " ++ file) with
  | .error e => (.error e, t)
  | .ok former => fx.rewriteFile dryRun p file former t

/-- Fixes a file of a run. One that cannot be read is skipped. -/
def visit (fx : Fixer) (root : Path) (dryRun : Bool) (p : Path) (t : Tree) :
    Except Failure Outcome × Tree :=
  let file := p.relativeTo root
  match t.readText p with
  | .error e => (.ok (.skip ⟨file, e.text⟩), t)
  | .ok former =>
    let (r, t) := fx.rewriteFile dryRun p file former t
    (r.map Outcome.report, t)

/-- Visits files in order until a write fails. -/
def gather (fx : Fixer) (root : Path) (dryRun : Bool) :
    Progress → List Path → Tree → Except Failure Progress × Tree
  | g, [], t => (.ok g, t)
  | g, p :: ps, t =>
    match fx.visit root dryRun p t with
    | (.error e, t) => (.error e, t)
    | (.ok o, t) => fx.gather root dryRun (g.add o) ps t

def conclude (fx : Fixer) (root : Path) (dryRun : Bool) (g : Progress) : FixResult :=
  { root := toString root
    dryRun
    rules := fx.rules
    files := g.files
    skipped := g.skipped
    summary := { g.summary with skipped := g.skipped.length } }

def runFiles (fx : Fixer) (root : Path) (dryRun : Bool) (ps : List Path) (t : Tree) :
    Except Failure FixResult × Tree :=
  let (g, t) := fx.gather root dryRun (.start ps.length) ps t
  (g.map (fx.conclude root dryRun), t)

def run (fx : Fixer) (root : Path) (d : Defaults) (dryRun : Bool) (t : Tree) :
    Except Failure FixResult × Tree :=
  match Discovery.discover t root d.patterns d.exclude with
  | .error e => (.error e, t)
  | .ok ps => fx.runFiles root dryRun ps t

end Fixer

end PlaybookTidy
