import LintGate.CommandLine.Given
import LintGate.Gate
import LintGate.Text.Case

/-!
# Command line — layers

What the command line does not give is taken from the environment, and what that does not give has a
default (`RunArgs.ofLayers`).
-/

namespace LintGate.CommandLine

open Text

/-- The variables that count, as far as they are set. -/
structure Environment where
  /-- Stands in for `--announce`. -/
  announce : Option Bytes := none
  /-- Stands in for `--announce-program`. -/
  program : Option Bytes := none
  /-- Stands in for `--announce-text`. -/
  text : Option Bytes := none
  /-- Stands in for `--verbose`. -/
  verbose : Option Bytes := none
  /-- The filter of the journal. -/
  log : Option Bytes := none
  deriving DecidableEq, Repr

namespace Environment

/-- The variable of `announce`. -/
def announceName : String := "BONZAI_HOOK_ANNOUNCE"

/-- The variable of `program`. -/
def programName : String := "BONZAI_HOOK_ANNOUNCE_PROGRAM"

/-- The variable of `text`. -/
def textName : String := "BONZAI_HOOK_ANNOUNCE_TEXT"

/-- The variable of `verbose`. -/
def verboseName : String := "BONZAI_HOOK_VERBOSE"

/-- The variables as they are looked up. -/
def ofLookup (lookup : String → Option Bytes) : Environment :=
  { announce := lookup announceName
    program  := lookup programName
    text     := lookup textName
    verbose  := lookup verboseName
    log      := lookup Filter.variableName }

/-- The words that leave a switch off. -/
def offWords : List String := ["", "n", "no", "f", "false", "off", "0"]

/-- A switch by its variable: off only for a word that says so. -/
def isOn (value : String) : Bool :=
  !offWords.contains (lower value)

/-- The text of a variable, if it is set; it has to be valid UTF-8. -/
def textOf (value : Option Bytes) : Except Halt (Option String) :=
  match value with
  | none   => .ok none
  | some v =>
    match Word.text? v with
    | some t => .ok (some t)
    | none   => .error (.usage .invalidUtf8)

/-- A switch: given, or turned on by its variable. -/
def switch (given : Bool) (variableValue : Option Bytes) : Except Halt Bool :=
  if given then .ok true
  else (textOf variableValue).map fun t => t.any isOn

/-- A setting: as given, or as its variable says, or the default. -/
def setting (given : Option String) (variableValue : Option Bytes) (default : String) :
    Except Halt String :=
  match given with
  | some t => .ok t
  | none   => (textOf variableValue).map fun t => t.getD default

end Environment

/-- What a run is to do, all layers taken together. -/
structure RunArgs where
  /-- Announce a run without issues. -/
  announce : Bool
  /-- The program that announces. -/
  program : String
  /-- The text to announce. -/
  text : String
  /-- Echo the linter's outputs. -/
  verbose : Bool
  /-- The words of the linter's command. -/
  linter : List String
  deriving DecidableEq, Repr

namespace RunArgs

/-- The command line over the environment over the defaults. -/
def ofLayers (env : Environment) (g : Given) : Except Halt RunArgs := do
  let announce ← Environment.switch g.announce env.announce
  let program ← Environment.setting g.program env.program Announcer.defaultProgram
  let text ← Environment.setting g.text env.text Options.defaultText
  let verbose ← Environment.switch g.verbose env.verbose
  .ok ⟨announce, program, text, verbose, g.linter⟩

/-- The options of a run of the gate.  Without words of its own the linter's command is the default
one. -/
def options (a : RunArgs) : Options where
  command :=
    match a.linter with
    | []        => .default
    | p :: args => ⟨p, args⟩
  announce     := a.announce
  announceText := a.text
  verbose      := a.verbose

end RunArgs

end LintGate.CommandLine
