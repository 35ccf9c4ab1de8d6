import LintGate.Json.Fault

/-!
# Failures and exit codes

What can go wrong outside the command line, as causes.  A failure has one message; a failure that
rests on another one also names it as its source, and the report of a failure gives both
(`Failure.report`).
-/

namespace LintGate

/-- What the caller of the gate is told by the exit code. -/
inductive ExitCode where
  /-- The stop may proceed. -/
  | allow
  /-- The gate could not do its work. -/
  | internalError
  /-- The stop is held back. -/
  | block
  deriving DecidableEq, Repr

/-- The number of an exit code. -/
def ExitCode.toNat : ExitCode → Nat
  | .allow         => 0
  | .internalError => 1
  | .block         => 2

/-- Why the system refuses something. -/
inductive SystemError where
  | notFound
  | denied
  | alreadyExists
  | notDirectory
  | isDirectory
  | nameTooLong
  /-- A text file is not valid UTF-8. -/
  | notUtf8
  /-- A name or an argument of a program holds a NUL. -/
  | nulByte
  | other (text : String)
  deriving DecidableEq, Repr

/-- The system's words for an error. -/
def SystemError.text : SystemError → String
  | .notFound      => "No such file or directory (os error 2)"
  | .denied        => "Permission denied (os error 13)"
  | .alreadyExists => "File exists (os error 17)"
  | .notDirectory  => "Not a directory (os error 20)"
  | .isDirectory   => "Is a directory (os error 21)"
  | .nameTooLong   => "File name too long (os error 36)"
  | .notUtf8       => "stream did not contain valid UTF-8"
  | .nulByte       => "nul byte found in provided data"
  | .other text    => text

/-- A part of the settings that is not of the kind it has to be. -/
inductive Malformed where
  /-- The hooks are not an object. -/
  | hooks
  /-- The entries of the stop hook are not an array. -/
  | stop
  deriving DecidableEq, Repr

/-- Where the malformed part stands. -/
def Malformed.key : Malformed → String
  | .hooks => "hooks"
  | .stop  => "hooks.Stop"

/-- A failure. -/
inductive Failure where
  /-- A linter command without a program. -/
  | emptyCommand
  /-- A program could not be launched. -/
  | launch (program : String) (cause : SystemError)
  /-- A settings file could not be read. -/
  | unreadable (path : String) (cause : SystemError)
  /-- A settings file holds something else than an object. -/
  | notAnObject (path : String)
  /-- The settings cannot take a stop hook. -/
  | malformed (part : Malformed)
  /-- A text is not the JSON it has to be. -/
  | misread (fault : Json.Misread)
  /-- The system refused something else. -/
  | system (cause : SystemError)

namespace Failure

/-- The message of a failure. -/
def text : Failure → String
  | .emptyCommand    => "linter command is empty"
  | .launch p c      => "failed to launch `" ++ p ++ "`: " ++ c.text
  | .unreadable p c  => "failed to read " ++ p ++ ": " ++ c.text
  | .notAnObject p   => p ++ " is not a JSON object"
  | .malformed m     => "`" ++ m.key ++ "` in settings has an unexpected shape"
  | .misread m       => m.text
  | .system c        => c.text

/-- The failure it rests on. -/
def source? : Failure → Option SystemError
  | .launch _ c     => some c
  | .unreadable _ c => some c
  | _               => none

/-- The message and that of the source, if there is one. -/
def report (f : Failure) : String :=
  match f.source? with
  | some c => f.text ++ ": " ++ c.text
  | none   => f.text

end Failure

end LintGate
