import LintGate.CommandLine.Halt
import LintGate.CommandLine.Word
import LintGate.HookCommand
import LintGate.Text.Case

/-!
# Command line — the action of the hook command

The hook command takes one word, its action, which may begin with dashes.  Only the words that ask
for help or for the version keep their meaning before it, and behind two dashes even those are
actions.  An action that is not known installs.
-/

namespace LintGate.CommandLine

open Text

namespace HookWords

/-- The action a word names. -/
def actionOf (word : String) : HookAction :=
  match lower word with
  | "uninstall" | "remove" | "-u" => .uninstall
  | "status" | "-s"               => .status
  | _                             => .install

/-- The action of a word, which has to be valid UTF-8. -/
def actionOfWord (w : Word) : Except Halt HookAction :=
  match w.text? with
  | some t => .ok (actionOf t)
  | none   => .error (.usage .invalidUtf8)

/-- The page a switch asks for. -/
def pageOf? : Switch → Option Page
  | .help    => some (.help .hook)
  | .version => some (.version .hook)
  | _        => none

/-- The page a letter asks for. -/
def pageOfLetter? (u : Option Char) : Option Page :=
  (u.bind Switch.ofLetter?).bind pageOf?

/-- The fault of a word that has no meaning where it stands. -/
def unknown {α : Type} (shown : String) : Except Halt α :=
  .error (.usage (.unknownArgument shown))

/-- The switch of a name, if it asks for a page. -/
def pageSwitch? (name : String) : Option (Switch × Page) :=
  match Opt.ofName? name with
  | some (.switch s) => (pageOf? s).map fun p => (s, p)
  | _                => none

/-- The words behind the action: nothing but a question for a page, or two dashes at the end. -/
def behind (action : Word) : List Word → Except Halt HookAction
  | []     => actionOfWord action
  | w :: ws =>
    match w.shape with
    | .dashes          =>
      match ws with
      | []     => actionOfWord action
      | v :: _ => unknown v.shown
    | .plain           => unknown w.shown
    | .long name value =>
      match (Word.text? name).bind pageSwitch?, value with
      | none, _             => unknown ("--" ++ Word.shown name)
      | some (s, _), some v => .error (.usage (.valueUnexpected (Word.shown v) s))
      | some (_, p), none   => do
        let _ ← actionOfWord action
        .error (.page p)
    | .short us        =>
      match us.head?.bind pageOfLetter? with
      | some p => do
        let _ ← actionOfWord action
        .error (.page p)
      | none   =>
        match us with
        | some c :: _ => unknown (String.ofList ['-', c])
        | _           => unknown (String.ofList ('-' :: us.map Utf8.shown))

/-- The action that the words of the hook command name. -/
def action : List Word → Except Halt HookAction
  | []     => .ok .install
  | w :: ws =>
    match w.shape with
    | .plain           => behind w ws
    | .dashes          =>
      match ws with
      | []          => .ok .install
      | [v]         => actionOfWord v
      | _ :: v :: _ => unknown v.shown
    | .long name value =>
      match Word.text? name with
      | none   => unknown ("--" ++ Word.shown name)
      | some n =>
        match pageSwitch? n, value with
        | none, _             => behind w ws
        | some (s, _), some v => .error (.usage (.valueUnexpected (Word.shown v) s))
        | some (_, p), none   => .error (.page p)
    | .short us        =>
      match us.head?.bind pageOfLetter? with
      | some p => if us.all fun u => (pageOfLetter? u).isSome then .error (.page p) else behind w ws
      | none   => behind w ws

end HookWords

end LintGate.CommandLine
