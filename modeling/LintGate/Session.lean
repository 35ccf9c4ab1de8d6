import LintGate.CommandLine.Manual
import LintGate.CommandLine.Request
import LintGate.Journal.Directive

/-!
# Sessions

One call of the program: the words and the variables say what is asked for, it is done in the
workspace, and what can be seen of it is an answer.  A failure ends on the error output behind all
that was noted.  Which notes are shown there is up to what reads the filter.
-/

namespace LintGate

open CommandLine

/-- What can be seen of a call. -/
structure Answer where
  /-- The exit code. -/
  exitCode : Nat
  /-- The output. -/
  stdout : String
  /-- The error output. -/
  stderr : String
  /-- The programs launched, each with its arguments. -/
  calls : List (String × List String)
  /-- The project's files afterwards. -/
  files : Node

namespace Session

/-- The exit code of a wrong command line. -/
def usageExitCode : Nat := 2

/-- The message of a failure, as a line. -/
def errorLine (report : String) : String :=
  "error: " ++ report ++ "\n"

/-- What can be seen of an outcome. -/
def seen {ε : Type} (report : ε → String) (stamp : Stamp) (f : Filter) (o : Outcome ε ExitCode)
    (files : Node) : Answer :=
  let ending : ExitCode × String :=
    match o.result with
    | .ok code => (code, "")
    | .error e => (.internalError, errorLine (report e))
  { exitCode := ending.1.toNat
    stdout   := o.trace.stdout
    stderr   := o.trace.stderr stamp f ++ ending.2
    calls    := o.trace.calls
    files    := files }

/-- Does what is asked for. -/
def perform (stamp : Stamp) (env : Environment) (w : Workspace) (r : Request)
    (reader : Filter.Reader) : Answer :=
  let filter := Filter.ofVariable reader (r.runArgs?.any RunArgs.verbose) env.log
  let gate (a : RunArgs) : Answer :=
    seen Failure.report stamp filter
      (Gate.run w a.options (Announcer.program w a.program) .working) w.files
  match r.command with
  | none                => gate r.top
  | some (.run a)       => gate a
  | some (.hook action) =>
    let done := HookCommand.run action w
    seen Setback.report stamp filter done.1 done.2

/-- One call of the program. -/
def step (stamp : Stamp) (env : Environment) (words : List Word) (w : Workspace)
    (reader : Filter.Reader) : Answer :=
  match Request.parse env words with
  | .ok r               => perform stamp env w r reader
  | .error (.page p)    => ⟨0, p.text env, "", [], w.files⟩
  | .error (.usage e)   => ⟨usageExitCode, "", e.line ++ "\n", [], w.files⟩

/-- Calls of the program one after the other, each in the files that the one before left.  Filters
are read as lists of directives, if nothing else is said. -/
def steps (stamp : Stamp) (w : Workspace) (calls : List (Environment × List Word))
    (reader : Filter.Reader := Directive.reader) : List Answer :=
  match calls with
  | []                => []
  | (env, words) :: cs =>
    let a := step stamp env words w reader
    a :: steps stamp { w with files := a.files } cs reader

end Session

end LintGate
