import LintGate.CommandLine.Halt
import LintGate.CommandLine.Word

/-!
# Command line — what a run is given

The words of a run are its options in any order, and behind two dashes the linter's command, whose
words are taken as they are.  A value may stand in the word of its setting, behind an equals sign,
or be the next word.  Such a setting is *pending*: it is settled only when another word takes
effect or the words end, and only then is a missing value, a repetition or a bad value found.  A
word that is wrong in itself comes first.
-/

namespace LintGate.CommandLine

open Text

/-- What the words of a run give. -/
structure Given where
  /-- Announce a run without issues. -/
  announce : Bool := false
  /-- The program that announces. -/
  program : Option String := none
  /-- The text to announce. -/
  text : Option String := none
  /-- Echo the linter's outputs. -/
  verbose : Bool := false
  /-- The words of the linter's command. -/
  linter : List String := []
  deriving DecidableEq, Repr

namespace Given

/-- The value of a setting, if it is given. -/
def setting? (g : Given) : Setting → Option String
  | .program => g.program
  | .text    => g.text

/-- A setting given with the value that a word spells. -/
def give (g : Given) (s : Setting) (value : Word) : Except Halt Given :=
  if (g.setting? s).isSome then .error (.usage (.repeated (.setting s)))
  else
    match Word.text? value, s with
    | none, _          => .error (.usage .invalidUtf8)
    | some t, .program => .ok { g with program := some t }
    | some t, .text    => .ok { g with text := some t }

/-- A switch turned on. -/
def turnOn (scope : Scope) (g : Given) : Switch → Except Halt Given
  | .announce =>
    if g.announce then .error (.usage (.repeated (.switch .announce)))
    else .ok { g with announce := true }
  | .verbose  =>
    if g.verbose then .error (.usage (.repeated (.switch .verbose)))
    else .ok { g with verbose := true }
  | .help     => .error (.page (.help scope))
  | .version  => .error (.page (.version scope))

end Given

/-- The words read so far. -/
structure Reading where
  /-- What they give. -/
  given : Given := {}
  /-- A setting that is not settled yet, with its value if that has come. -/
  pending : Option (Setting × Option Word) := none
  deriving DecidableEq, Repr

namespace Reading

/-- What is given once the pending setting is settled. -/
def settle (r : Reading) : Except Halt Given :=
  match r.pending with
  | none             => .ok r.given
  | some (s, none)   => .error (.usage (.valueMissing s))
  | some (s, some v) => r.given.give s v

/-- The letters of a word, one by one. -/
def letters (scope : Scope) : List (Option Char) → Reading → Except Halt Reading
  | [], r           => .ok r
  | none :: us, _   =>
    .error (.usage (.unknownArgument (String.ofList ('-' :: (none :: us).map Utf8.shown))))
  | some c :: us, r =>
    match Switch.ofLetter? c with
    | none   => .error (.usage (.unknownArgument (String.ofList ['-', c])))
    | some s => do
      let g ← r.settle
      let g' ← g.turnOn scope s
      letters scope us { given := g' }

/-- An option by its name, with the value that stands in its word. -/
def named (scope : Scope) (name : Bytes) (value : Option Bytes) (r : Reading) :
    Except Halt Reading :=
  match (Word.text? name).bind Opt.ofName?, value with
  | none, _                   => .error (.usage (.unknownArgument ("--" ++ Word.shown name)))
  | some (.switch s), some v  => .error (.usage (.valueUnexpected (Word.shown v) s))
  | some (.switch s), none    => do
    let g ← r.settle
    let g' ← g.turnOn scope s
    .ok { given := g' }
  | some (.setting s), some v => do
    let g ← r.settle
    let g' ← g.give s v
    .ok { given := g' }
  | some (.setting s), none   => do
    let g ← r.settle
    .ok { given := g, pending := some (s, none) }

/-- A word that is no option: the value that a pending setting waits for. -/
def plain (w : Word) (r : Reading) : Except Halt Reading :=
  match r.pending with
  | some (s, none) => .ok { r with pending := some (s, some w) }
  | _              => .error (.usage (.unknownArgument (Word.shown w)))

/-- The words of the linter's command. -/
def command (ws : List Word) (r : Reading) : Except Halt Given := do
  let g ← r.settle
  match ws.mapM Word.text? with
  | some ts => .ok { g with linter := ts }
  | none    => .error (.usage .invalidUtf8)

/-- The words of a run, read on. -/
def words (scope : Scope) : List Word → Reading → Except Halt Given
  | [], r      => r.settle
  | w :: ws, r =>
    match w.shape with
    | .dashes          => r.command ws
    | .long name value => do
      let r' ← r.named scope name value
      words scope ws r'
    | .short us        => do
      let r' ← r.letters scope us
      words scope ws r'
    | .plain           => do
      let r' ← r.plain w
      words scope ws r'

end Reading

/-- What the words of a run give. -/
def Given.ofWords (scope : Scope) (ws : List Word) : Except Halt Given :=
  Reading.words scope ws {}

end LintGate.CommandLine
