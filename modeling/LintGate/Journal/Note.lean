import LintGate.Failure

/-!
# Journal — notes

What happens during a run is noted in a journal, on the error output.  A note has a level, a target
that says which part of the program it comes from, and a line of text (`Note.line`).
-/

namespace LintGate

/-- How much a note matters. -/
inductive Level where
  | error
  | warn
  | info
  | debug
  | trace
  deriving DecidableEq, Repr

namespace Level

/-- The place of a level, the most important first. -/
def rank : Level → Nat
  | .error => 1
  | .warn  => 2
  | .info  => 3
  | .debug => 4
  | .trace => 5

/-- The name of a level, right aligned. -/
def label : Level → String
  | .error => "ERROR"
  | .warn  => " WARN"
  | .info  => " INFO"
  | .debug => "DEBUG"
  | .trace => "TRACE"

end Level

/-- One note. -/
inductive Note where
  /-- The linter is about to run. -/
  | running (command : String)
  /-- It has finished, with this status and these numbers of bytes. -/
  | finished (status : Option Int) (stdout stderr : Nat)
  /-- Its status says that it failed. -/
  | nonZero (status : Int)
  /-- What it wrote to its error output. -/
  | complaint (text : String)
  /-- The number of issues in its output. -/
  | counted (issues : Nat)
  /-- The announcement is on its way. -/
  | announced (program : String)
  /-- The announcement could not be launched. -/
  | unannounced (program : String) (cause : SystemError)
  /-- The settings could not be read. -/
  | unreadable (path : String) (failure : Failure)
  /-- The configuration is passed over. -/
  | unparsable (path : String) (fault : Json.Misread)

/-- What the surroundings of a run put into its notes. -/
structure Stamp where
  /-- The time. -/
  time : String
  /-- The number of the process that announces. -/
  process : String

namespace Note

/-- The level of a note. -/
def level : Note → Level
  | .unannounced .. | .unreadable .. | .unparsable .. => .warn
  | _                                                 => .debug

/-- The target of a note. -/
def target : Note → String
  | .running _ | .finished ..                => "bonzai_hook::linter"
  | .nonZero _ | .complaint _ | .counted _   => "bonzai_hook::reporter"
  | .announced _ | .unannounced ..           => "bonzai_hook::announce"
  | .unreadable ..                           => "bonzai_hook::cmd_hook"
  | .unparsable ..                           => "bonzai_hook::config"

/-- A status, or that there is none. -/
def statusText : Option Int → String
  | some n => "Some(" ++ toString n ++ ")"
  | none   => "None"

/-- The text of a note: what happened, and then the values by name. -/
def text (process : String) : Note → String
  | .running c       => "running linter command=" ++ c
  | .finished s o e  =>
    "linter finished status=" ++ statusText s ++ " stdout_bytes=" ++ toString o ++ " stderr_bytes="
      ++ toString e
  | .nonZero n       => "linter exited non-zero status=" ++ toString n
  | .complaint t     => "linter stderr stderr=" ++ t
  | .counted n       => "parsed issues count=" ++ toString n
  | .announced p     => "announcement launched program=" ++ p ++ " pid=" ++ process
  | .unannounced p c => "announcement failed program=" ++ p ++ " error=" ++ c.text
  | .unreadable p f  => "unreadable settings path=" ++ p ++ " error=" ++ f.text
  | .unparsable p m  => "ignoring unparsable config path=" ++ p ++ " error=" ++ m.text

/-- The line of a note. -/
def line (stamp : Stamp) (n : Note) : String :=
  stamp.time ++ " " ++ n.level.label ++ " " ++ n.text stamp.process ++ "\n"

end Note

end LintGate
