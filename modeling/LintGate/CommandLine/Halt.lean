import LintGate.CommandLine.Option

/-!
# Command line — what ends the reading early

A command line that asks for a page of help or for the version is answered at once, and one that is
wrong is answered with what is wrong about it.
-/

namespace LintGate.CommandLine

/-- The command a word belongs to. -/
inductive Scope where
  /-- No command is named. -/
  | top
  | run
  | hook
  | help
  deriving DecidableEq, Repr

/-- A page that can be asked for. -/
inductive Page where
  | help (scope : Scope)
  | version (scope : Scope)
  deriving DecidableEq, Repr

/-- What is wrong about a command line. -/
inductive UsageError where
  /-- A word has no meaning where it stands. -/
  | unknownArgument (word : String)
  /-- Help is asked for on something that is no command. -/
  | unknownCommand (word : String)
  /-- A setting has no value. -/
  | valueMissing (s : Setting)
  /-- A switch has a value. -/
  | valueUnexpected (value : String) (s : Switch)
  /-- An option is given twice. -/
  | repeated (o : Opt)
  /-- A word or a variable is not valid UTF-8. -/
  | invalidUtf8
  deriving DecidableEq, Repr

/-- The message of a usage error. -/
def UsageError.text : UsageError → String
  | .unknownArgument w   => "error: unexpected argument '" ++ w ++ "' found"
  | .unknownCommand w    => "error: unrecognized subcommand '" ++ w ++ "'"
  | .valueMissing s      =>
    "error: a value is required for '" ++ (Opt.setting s).shown ++ "' but none was supplied"
  | .valueUnexpected v s =>
    "error: unexpected value '" ++ v ++ "' for '" ++ (Opt.switch s).shown
      ++ "' found; no more were expected"
  | .repeated o          =>
    "error: the argument '" ++ o.shown ++ "' cannot be used multiple times"
  | .invalidUtf8         => "error: invalid UTF-8 was detected in one or more arguments"

/-- The first line of the message. -/
def UsageError.line (e : UsageError) : String :=
  String.ofList (e.text.toList.takeWhile (· ≠ '\n'))

/-- Why the reading ends early. -/
inductive Halt where
  | usage (e : UsageError)
  | page (p : Page)
  deriving DecidableEq, Repr

end LintGate.CommandLine
