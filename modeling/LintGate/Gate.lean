import LintGate.Echo
import LintGate.Issue
import LintGate.Launch
import LintGate.Payload
import LintGate.Trace

/-!
# The gate

The linter runs once, and its output decides: an issue in it holds the stop back, and the payload
is printed; with no issue the stop is let pass, its outputs are echoed if that is wanted, and the
success is announced if that is wanted.  The linter's error output and its status are noted and
decide nothing.  How a text is announced is left to the caller (`Announcer`).
-/

namespace LintGate

/-- The text that is announced if no other is given. -/
def Options.defaultText : String := "Bonzai burn complete"

/-- What one run of the gate is asked to do. -/
structure Options where
  /-- The linter's command. -/
  command : Invocation := .default
  /-- Announce a run without issues. -/
  announce : Bool := false
  /-- The text to announce. -/
  announceText : String := Options.defaultText
  /-- Echo the linter's outputs. -/
  verbose : Bool := false
  deriving DecidableEq, Repr

/-- What the output of a linter comes to. -/
inductive Verdict where
  | allow
  | block (p : Payload)
  deriving DecidableEq, Repr

/-- The exit code of a verdict. -/
def Verdict.exitCode : Verdict → ExitCode
  | .allow   => .allow
  | .block _ => .block

/-- The verdict on what a linter left behind. -/
def Captured.verdict (c : Captured) : Verdict :=
  match Issue.ofOutput c.stdout with
  | [] => .allow
  | is => .block (.block is)

/-- Where the payload goes. -/
inductive Sink where
  /-- It takes what is written. -/
  | working
  /-- It refuses every write. -/
  | broken (cause : SystemError)
  deriving DecidableEq, Repr

/-- What is done to announce a text. -/
abbrev Announcer := String → Trace

namespace Announcer

/-- Only records the text. -/
def recorder : Announcer :=
  fun text => [.announced text]

/-- The program that announces if no other is given. -/
def defaultProgram : String := "say"

/-- Launches a program with the text as its one argument and goes on without it.  If the program
cannot be launched, that is noted. -/
def program (w : Workspace) (name : String) : Announcer := fun text =>
  match w.launch name [text] with
  | .ok (listed, _) => [.launched listed [text], .noted (.announced name)]
  | .error e        => [.noted (.unannounced name e)]

end Announcer

namespace Gate

/-- What is noted of the linter's ending before its output is looked at. -/
def remarks (c : Captured) : Trace :=
  (match c.status with
    | none   => []
    | some 0 => []
    | some n => [.noted (.nonZero n)]) ++
  (match Text.trimBy Text.isSpace c.stderr.toList with
    | [] => []
    | s  => [.noted (.complaint (String.ofList s))])

/-- The echo of the linter's outputs. -/
def echoOf (verbose : Bool) (c : Captured) : Trace :=
  [.echoed (Echo.written verbose
    [.raw "linter stdout" c.stdout, .raw "linter stderr" c.stderr])]

/-- Acts on what the linter left behind. -/
def report (o : Options) (a : Announcer) (sink : Sink) (c : Captured) : Outcome Failure ExitCode :=
  let before := remarks c ++ [.noted (.counted (Issue.ofOutput c.stdout).length)]
  let done := Except.ok c.verdict.exitCode
  match c.verdict with
  | .block p =>
    match sink with
    | .working  => ⟨before ++ [.printed (p.toJson ++ "\n")], done⟩
    | .broken e => ⟨before, .error (.system e)⟩
  | .allow =>
    ⟨before ++ echoOf o.verbose c ++ (if o.announce then a o.announceText else []), done⟩

/-- Runs the linter to its end. -/
def lint (w : Workspace) (i : Invocation) : Outcome Failure Captured :=
  let running := Event.noted (.running i.display)
  match w.launch i.program i.args with
  | .error e        => ⟨[running], .error (.launch i.program e)⟩
  | .ok (listed, p) =>
    let c := p.captured
    ⟨[running, .launched listed i.args,
      .noted (.finished c.status c.stdout.utf8ByteSize c.stderr.utf8ByteSize)], .ok c⟩

/-- Runs the linter and acts on what it left behind. -/
def run (w : Workspace) (o : Options) (a : Announcer) (sink : Sink) : Outcome Failure ExitCode :=
  let l := lint w o.command
  match l.result with
  | .error e => ⟨l.trace, .error e⟩
  | .ok c    =>
    let r := report o a sink c
    ⟨l.trace ++ r.trace, r.result⟩

end Gate

end LintGate
