import LintGate.CommandLine.ActionWords
import LintGate.CommandLine.Layers

/-!
# Command line — requests

The first word may name a command; any other command line is that of a run.  The options of a run
are read from the environment whatever the command, so a variable that is not valid UTF-8 is always
found.
-/

namespace LintGate.CommandLine

/-- A command that is named. -/
inductive Command where
  | run (args : RunArgs)
  | hook (action : HookAction)
  deriving DecidableEq, Repr

/-- What a command line asks for. -/
structure Request where
  /-- The options given before any command, all layers taken together. -/
  top : RunArgs
  /-- The command, if one is named. -/
  command : Option Command
  deriving DecidableEq, Repr

namespace Request

/-- The command a word names. -/
def scopeOf? (w : Word) : Option Scope :=
  match w.text? with
  | some "run"  => some .run
  | some "hook" => some .hook
  | some "help" => some .help
  | _           => none

/-- The answer to a call for help on the commands that the words name. -/
def helpOn : List Word → Halt
  | []      => .page (.help .top)
  | w :: ws =>
    match scopeOf? w with
    | none   => .usage (.unknownCommand w.shown)
    | some s =>
      match ws with
      | []     => .page (.help s)
      | v :: _ => .usage (.unknownCommand v.shown)

/-- What a command line asks for. -/
def parse (env : Environment) (words : List Word) : Except Halt Request :=
  match words.head?.bind scopeOf? with
  | none       => do
    let g ← Given.ofWords .top words
    let top ← RunArgs.ofLayers env g
    .ok ⟨top, none⟩
  | some .run  => do
    let g ← Given.ofWords .run words.tail
    let args ← RunArgs.ofLayers env g
    let top ← RunArgs.ofLayers env {}
    .ok ⟨top, some (.run args)⟩
  | some .hook => do
    let action ← HookWords.action words.tail
    let top ← RunArgs.ofLayers env {}
    .ok ⟨top, some (.hook action)⟩
  | some _     => .error (helpOn words.tail)

/-- The options of the run asked for, if it is one. -/
def runArgs? (r : Request) : Option RunArgs :=
  match r.command with
  | none            => some r.top
  | some (.run a)   => some a
  | some (.hook _)  => none

end Request

end LintGate.CommandLine
