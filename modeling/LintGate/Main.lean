import LintGate.Session

/-!
# The program

The outermost layer: it gathers what a call depends on, has the call answered, and carries the
answer out.  Of the project it looks only at the files that a call can read.  The linter is run by
the caller, and what it wrote comes in on the standard input.
-/

namespace LintGate.Shell

open CommandLine Text

/-- What stands at a path. -/
def lookAt (path : String) : IO (Option Node) := do
  let place := System.mkFilePath [path]
  if ← place.isDir then
    return some (.directory [])
  else if ← place.pathExists then
    return some (.file (← IO.FS.readBinFile path).toList)
  else
    return none

/-- The nodes along a path from a place down. -/
def nodesAlong (place : String) : Path → IO (Option Node)
  | []     => lookAt place
  | s :: p => do
    match ← lookAt place with
    | some (.directory _) =>
      match ← nodesAlong (joined place s) p with
      | some n => return some (.directory [(s, n)])
      | none   => return some (.directory [])
    | other => return other

/-- The entries of the root along a path. -/
def entriesAlong (root : String) (p : Path) : IO (List (String × Node)) := do
  match ← nodesAlong root p with
  | some (.directory es) => return es
  | _                    => return []

/-- All that comes in on a stream. -/
partial def readAll (input : IO.FS.Stream) (before : ByteArray) : IO ByteArray := do
  let chunk ← input.read 65536
  if chunk.isEmpty then return before else readAll input (before ++ chunk)

/-- The variables that count. -/
def environment : IO Environment := do
  let names := [Environment.announceName, Environment.programName, Environment.textName,
    Environment.verboseName, Filter.variableName]
  let values ← names.mapM fun name => do return (← IO.getEnv name).map Word.spelling
  return Environment.ofLookup fun name => (Json.Members.get? name (names.zip values)).join

/-- The linter's program, if a run is asked for, with what it wrote. -/
def linterOf (env : Environment) (words : List Word) : IO (List (String × Program)) := do
  match Request.parse env words with
  | .error _ => return []
  | .ok r    =>
    match r.runArgs? with
    | none   => return []
    | some a =>
      let input ← readAll (← IO.getStdin) .empty
      return [(a.options.command.program, { stdout := input.toList })]

/-- Writes the settings if they are not what they were. -/
def carryOut (root : String) (before after : Node) : IO Unit := do
  match after.read settingsPath with
  | .error _ => return
  | .ok c    =>
    match before.read settingsPath with
    | .ok b    => if b == c then return
    | .error _ => pure ()
    IO.FS.createDirAll (Path.under root settingsPath.dropLast)
    IO.FS.writeBinFile (settingsPath.under root) ⟨c.toArray⟩

end LintGate.Shell

open LintGate LintGate.CommandLine in
/-- Answers one call. -/
def main (args : List String) : IO UInt32 := do
  let root := (← IO.currentDir).toString
  let env ← Shell.environment
  let words := args.map Word.spelling
  let entries := (← Shell.entriesAlong root settingsPath) ++ (← Shell.entriesAlong root configPath)
  let w : Workspace :=
    { root := root, files := .directory entries, programs := ← Shell.linterOf env words }
  let stamp : Stamp := { time := toString (← IO.monoMsNow), process := "" }
  let answer := Session.step stamp env words w Directive.reader
  Shell.carryOut root w.files answer.files
  (← IO.getStdout).putStr answer.stdout
  (← IO.getStderr).putStr answer.stderr
  return UInt32.ofNat answer.exitCode
