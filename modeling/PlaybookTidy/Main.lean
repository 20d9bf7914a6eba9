import PlaybookTidy.Command.Answer

/-!
The program. It surveys the part of the disk that a command line names, answers the command line
on that tree, and makes the changes of the answer on the disk. Symbolic links are passed over.
-/

namespace PlaybookTidy.Disk

/-- The locations that a path spells from a directory on, the last one first. -/
def steps (start : Location) (p : Path) : List Location :=
  (Text.splitOn '/' p.text).foldl (fun ls n =>
    let l := ls.headD []
    if Path.isVoid n then ls
    else if n = Path.dotDot then l.dropLast :: ls
    else (l ++ [n]) :: ls) [if p.isAbsolute then [] else start]

def pathText (l : Location) : String := toString (Path.Lead.root.attach l)

/-- What lies at a location of the disk and below it. Contents are not read yet. -/
partial def survey (l : Location) : IO (List (Location × Entry)) := do
  let p := (← IO.currentDir) / pathText l
  if ← p.isDir then
    let below ← (← p.readDir).toList.mapM fun e => do
      if (← e.path.symlinkMetadata).type == .symlink then return []
      survey (l ++ [e.fileName.toList])
    return (l, .directory) :: below.flatten
  else if ← p.pathExists then return [(l, .file .empty)]
  else return []

/-- Adds to a tree the directories along a path, and what lies at its end and below. -/
def add (t : Tree) (start : Location) (p : Path) : IO Tree := do
  let ls := steps start p
  let t ← (ls.drop 1).foldlM (fun t l => do
    if ← ((← IO.currentDir) / pathText l).isDir then return t.place l .directory else return t) t
  match ← survey (ls.headD []) with
  | [] => return t
  | (l, e) :: below => return { t.place l e with entries := (t.place l e).entries ++ below }

def fill (t : Tree) (ps : List Path) : IO Tree :=
  ps.foldlM (fun t p => do
    match t.resolve p with
    | .ok l =>
      if t.isFile p then return t.set l (.file (← IO.FS.readBinFile (pathText l))) else return t
    | .error _ => return t) t

/-- Makes a change on the disk. A file is written beside its place and then takes its name. -/
def apply : Location × Option Entry → IO Unit
  | (l, some (.file content)) => do
    let temp := pathText (l.dropLast ++ [Tree.tempName (l.getLastD [])])
    IO.FS.writeBinFile temp content
    IO.FS.rename temp (pathText l)
  | (l, some .directory) => IO.FS.createDirAll (pathText l)
  | (l, none) => do
    if ← ((← IO.currentDir) / pathText l).pathExists then IO.FS.removeFile (pathText l)

/-- The tree that a request is about: what lies below its root, and its configuration file. -/
def load (r : Command.Request) : IO Tree := do
  let here := (steps [] (Path.ofString (toString (← IO.currentDir)))).headD []
  let t := Tree.place ⟨here, []⟩ here .directory
  match r.places with
  | none => return t
  | some (path, _) =>
    let t ← add t here (Command.rootPath t path)
    let config := r.configFile? t
    let t ← match config.filter fun p => !t.contains p with
      | some p => add t here p
      | none => pure t
    let t ← fill t config.toList
    fill t (r.sources t)

end PlaybookTidy.Disk

open PlaybookTidy

def main (args : List String) : IO UInt32 := do
  match Command.parse args with
  | .error e =>
    IO.eprintln ("error: " ++ e.text)
    return 2
  | .ok r =>
    let before ← Disk.load r
    let (reply, after) := Command.answer r before
    for change in before.changes after do
      Disk.apply change
    IO.print reply.text
    return reply.exitCode.toUInt32
