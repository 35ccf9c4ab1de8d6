/-!
# Command line — options

The options of a run, and those every command has.  A switch is either given or not; a setting is
given with a value.
-/

namespace LintGate.CommandLine

/-- An option without a value. -/
inductive Switch where
  | announce
  | verbose
  | help
  | version
  deriving DecidableEq, Repr

/-- An option with a value. -/
inductive Setting where
  | program
  | text
  deriving DecidableEq, Repr

/-- An option. -/
inductive Opt where
  | switch (s : Switch)
  | setting (s : Setting)
  deriving DecidableEq, Repr

namespace Switch

/-- The name of a switch. -/
def name : Switch → String
  | .announce => "announce"
  | .verbose  => "verbose"
  | .help     => "help"
  | .version  => "version"

/-- The switch of a letter. -/
def ofLetter? : Char → Option Switch
  | 'v' => some .verbose
  | 'h' => some .help
  | 'V' => some .version
  | _   => none

end Switch

namespace Setting

/-- The name of a setting. -/
def name : Setting → String
  | .program => "announce-program"
  | .text    => "announce-text"

/-- What stands for the value of a setting in messages. -/
def valueName : Setting → String
  | .program => "PROGRAM"
  | .text    => "TEXT"

end Setting

namespace Opt

/-- The option of a name. -/
def ofName? : String → Option Opt
  | "announce"         => some (.switch .announce)
  | "verbose"          => some (.switch .verbose)
  | "help"             => some (.switch .help)
  | "version"          => some (.switch .version)
  | "announce-program" => some (.setting .program)
  | "announce-text"    => some (.setting .text)
  | _                  => none

/-- How an option is shown in messages. -/
def shown : Opt → String
  | .switch s  => "--" ++ s.name
  | .setting s => "--" ++ s.name ++ " <" ++ s.valueName ++ ">"

end Opt

end LintGate.CommandLine
