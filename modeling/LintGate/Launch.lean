import LintGate.Project
import LintGate.Text.Lines

/-!
# Launching programs

A program is named or located.  A name without a slash is looked up among the programs the system
knows by name; any other name is a path, from the topmost directory if it begins with a slash and
else from the project, and is walked directory by directory (`Workspace.walk`).  Outside the project
there are the programs that are listed, the directories on the way to these and to the project, and
nothing else.

A program that ends in any way has run: only what keeps it from starting is a failure
(`Workspace.launch`).
-/

namespace LintGate

open Json Text

/-- What a program does when it is launched. -/
structure Program where
  /-- What it writes to its output. -/
  stdout : Bytes := []
  /-- What it writes to its error output. -/
  stderr : Bytes := []
  /-- The status it exits with, unless it is killed. -/
  status : Option Int := some 0
  /-- It may be executed. -/
  executable : Bool := true

/-- What a run of the gate finds around it. -/
structure Workspace where
  /-- The path of the project, from the topmost directory. -/
  root : String
  /-- The project's files. -/
  files : Node
  /-- The programs, by name or by path. -/
  programs : List (String × Program) := []

/-! ### Paths -/

/-- The names of a path between its slashes; a slash at an end has an empty name beside it. -/
def segmentsOf (name : String) : List String :=
  (split '/' name.toList).map String.ofList

/-- A name that is a path. -/
def isPath (name : String) : Bool :=
  name.toList.contains '/'

/-- A path from the topmost directory. -/
def isAbsolute (name : String) : Bool :=
  name.toList.head? == some '/'

/-- A name that leads nowhere else. -/
def isHere (segment : String) : Bool :=
  segment == "" || segment == "."

namespace Path

/-- The place that a name leads to.  Above the topmost directory is that directory itself. -/
def next (place : Path) (segment : String) : Path :=
  if isHere segment then place
  else if segment == ".." then place.dropLast
  else place ++ [segment]

/-- The places on the way along names, with the first and the last. -/
def stops (place : Path) : List String → List Path
  | []      => [place]
  | s :: ss => place :: stops (place.next s) ss

end Path

/-- The greatest number of bytes in the name of a file. -/
def nameLimit : Nat := 255

/-- The number of bytes no path reaches. -/
def pathLimit : Nat := 4096

/-! ### Finding a program -/

/-- What stands at a place. -/
inductive Spot where
  | nothing
  | directory
  | file
  | program (name : String) (p : Program)

namespace Workspace

/-- The place of the project. -/
def place (w : Workspace) : Path :=
  (segmentsOf w.root).foldl Path.next []

/-- Where a path starts. -/
def start (w : Workspace) (name : String) : Path :=
  if isAbsolute name then [] else w.place

/-- The place of a program, if its name is a path. -/
def placeOf? (w : Workspace) (name : String) : Option Path :=
  if isPath name then some ((segmentsOf name).foldl Path.next (w.start name)) else none

/-- The file or directory of the project at a place. -/
def nodeAt? (w : Workspace) (p : Path) : Option Node :=
  (w.place.isPrefixOf? p).bind fun q => w.files.at? q

/-- The place is a directory on the way to the project, or one that the path of a program goes
through. -/
def leads (w : Workspace) (p : Path) : Bool :=
  p.isPrefixOf w.place || w.programs.any fun e =>
    isPath e.1 && ((w.start e.1).stops (segmentsOf e.1)).any fun q => p.isPrefixOf q

/-- What stands at a place. -/
def spot (w : Workspace) (p : Path) : Spot :=
  match w.programs.find? fun e => w.placeOf? e.1 == some p with
  | some (name, q) => .program name q
  | none           =>
    match w.nodeAt? p with
    | some (.directory _) => .directory
    | some (.file _)      => .file
    | none                => if w.leads p then .directory else .nothing

/-- Follows names from a place. -/
def walk (w : Workspace) : (place : Path) → List String → Except SystemError Spot
  | place, []      => .ok (w.spot place)
  | place, s :: ss =>
    match w.spot place with
    | .nothing             => .error .notFound
    | .file | .program _ _ => .error .notDirectory
    | .directory           =>
      if s.utf8ByteSize > nameLimit then .error .nameTooLong else walk w (place.next s) ss

/-- The program of that name, with the name it is listed under. -/
def find (w : Workspace) (name : String) : Except SystemError (String × Program) :=
  if name == "" then .error .notFound
  else if isPath name then
    if name.utf8ByteSize ≥ pathLimit then .error .nameTooLong
    else
      match w.walk (w.start name) (segmentsOf name) with
      | .error e           => .error e
      | .ok (.program n p) => if p.executable then .ok (n, p) else .error .denied
      | .ok .nothing       => .error .notFound
      | .ok _              => .error .denied
  else if name == "." || name == ".." then .error .denied
  else if name.utf8ByteSize > nameLimit then .error .nameTooLong
  else
    match Members.get? name w.programs with
    | some p => if p.executable then .ok (name, p) else .error .denied
    | none   => .error .notFound

/-- Launches a program with its arguments. -/
def launch (w : Workspace) (name : String) (args : List String) :
    Except SystemError (String × Program) :=
  if (name :: args).any fun t => t.toList.contains '\x00' then .error .nulByte else w.find name

end Workspace

/-! ### The linter's command -/

/-- A program and its arguments. -/
structure Invocation where
  /-- The program. -/
  program : String
  /-- Its arguments. -/
  args : List String
  deriving DecidableEq, Repr

/-- What a finished program left behind. -/
structure Captured where
  /-- Its output. -/
  stdout : String := ""
  /-- Its error output. -/
  stderr : String := ""
  /-- Its exit status, unless it was killed. -/
  status : Option Int := none
  deriving DecidableEq, Repr

namespace Invocation

/-- The linter that runs if no other is given. -/
def default : Invocation := ⟨"npx", ["bonzai-burn", "-b"]⟩

/-- The command whose first word is the program. -/
def ofTokens : List String → Except Failure Invocation
  | []           => .error .emptyCommand
  | p :: args    => .ok ⟨p, args⟩

/-- The words of the command with spaces between them. -/
def display (i : Invocation) : String :=
  " ".intercalate (i.program :: i.args)

end Invocation

/-- What a program left behind once it has run.  Its outputs are read as text, and the system keeps
the low eight bits of an exit status. -/
def Program.captured (p : Program) : Captured :=
  { stdout := String.ofList (Utf8.lossy p.stdout)
    stderr := String.ofList (Utf8.lossy p.stderr)
    status := p.status.map fun n => n % 256 }

end LintGate
