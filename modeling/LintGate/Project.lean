import LintGate.Failure
import LintGate.Json.Members

/-!
# The project's files

A project is a tree of directories and files.  A path is the list of names from the root down.
Reading, making a directory and writing a file fail as the system's calls do: a file is no
directory to go through, a directory is no file to read or write, and only making a directory makes
what is missing above it.
-/

namespace LintGate

open Json Text

/-- A file or a directory. -/
inductive Node where
  | file (content : Bytes)
  | directory (entries : List (String × Node))

/-- The names on the way down, from the root of the project or from another place. -/
abbrev Path := List String

namespace Node

/-- What stands at a path. -/
def at? : Path → Node → Option Node
  | [], n                  => some n
  | s :: p, .directory es  => (Members.get? s es).bind (at? p)
  | _ :: _, .file _        => none

/-- The content of the file at a path. -/
def read (p : Path) (n : Node) : Except SystemError Bytes :=
  match n.at? p with
  | some (.file c)      => .ok c
  | some (.directory _) => .error .isDirectory
  | none                => .error .notFound

/-- Something, or nothing yet, with a directory at a path and at every path above it. -/
def withDirectory : Path → Option Node → Except SystemError Node
  | [], none                    => .ok (.directory [])
  | [], some (.directory es)    => .ok (.directory es)
  | [], some (.file _)          => .error .alreadyExists
  | s :: p, none                =>
    (withDirectory p none).map fun n => .directory [(s, n)]
  | s :: p, some (.directory es) =>
    (withDirectory p (Members.get? s es)).map fun n => .directory (Members.put s n es)
  | _ :: _, some (.file _)      => .error .notDirectory

/-- Something, or nothing yet, with a file at a path whose directory is there. -/
def withFile (content : Bytes) : Path → Option Node → Except SystemError Node
  | [], some (.directory _)      => .error .isDirectory
  | [], _                        => .ok (.file content)
  | s :: p, some (.directory es) =>
    (withFile content p (Members.get? s es)).map fun n => .directory (Members.put s n es)
  | _ :: _, some (.file _)       => .error .notDirectory
  | _ :: _, none                 => .error .notFound

theorem at?_withFile {content : Bytes} {p : Path} {n : Option Node} {m : Node}
    (h : withFile content p n = .ok m) : m.at? p = some (.file content) := by
  induction p generalizing n m with
  | nil =>
    match n, h with
    | none, h           => cases h; rfl
    | some (.file _), h => cases h; rfl
  | cons s p ih =>
    match n, h with
    | some (.directory es), h =>
      simp only [withFile] at h
      cases hw : withFile content p (Members.get? s es) with
      | error e => rw [hw] at h; cases h
      | ok k =>
        rw [hw] at h
        cases h
        simp [at?, Members.get?_put_self, ih hw]

/-- The tree with a file at a path, and with its directory made if it is not there. -/
def write (p : Path) (content : Bytes) (n : Node) : Except SystemError Node := do
  let m ← withDirectory p.dropLast (some n)
  withFile content p (some m)

end Node

/-- A name behind a path: one slash comes between, unless the path is empty or ends in one. -/
def joined (path name : String) : String :=
  match path.toList.getLast? with
  | none | some '/' => path ++ name
  | some _          => path ++ "/" ++ name

/-- The path of the agent's settings. -/
def settingsPath : Path := [".claude", "settings.local.json"]

/-- The path of the linter's configuration. -/
def configPath : Path := ["bonzai", "config.json"]

/-- A path written out behind the root's own. -/
def Path.under (root : String) (p : Path) : String :=
  p.foldl joined root

end LintGate
