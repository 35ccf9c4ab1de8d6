import LintGate.Launch
import LintGate.Store

/-!
# The hook command

Registers the gate as a stop hook of the agent, takes it out again, or tells how things stand.  The
settings are written only if they change, and nothing is written when they cannot be read or cannot
take a stop hook.
-/

namespace LintGate

/-- What the hook command is to do. -/
inductive HookAction where
  | install
  | uninstall
  | status
  deriving DecidableEq, Repr

/-- What the hook command does with the settings. -/
inductive Handling where
  | load
  | change
  | write
  deriving DecidableEq, Repr

/-- The words for a handling that failed. -/
def Handling.text : Handling → String
  | .load    => "failed to load "
  | .change  => "refusing to rewrite "
  | .write   => "failed to write "

/-- A failure while the settings were handled. -/
structure Setback where
  /-- What was being done. -/
  handling : Handling
  /-- The path of the settings. -/
  path : String
  /-- What went wrong. -/
  failure : Failure

/-- The message of a setback. -/
def Setback.report (s : Setback) : String :=
  s.handling.text ++ s.path ++ ": " ++ s.failure.report

namespace HookCommand

/-- Said when there is nothing to install. -/
def alreadyInstalled : String := "✓ bonzai-hook already installed\n\n"

/-- Said after installing. -/
def installed : String :=
  "✓ Installed bonzai-hook as a Claude Code Stop hook\n  `" ++ Registry.gateCommand
    ++ "` will run after every Claude Code message\n\n"

/-- Said when there is nothing to remove. -/
def notInstalled : String := "✓ bonzai-hook not installed\n\n"

/-- Said after removing. -/
def removed : String := "✓ Removed bonzai-hook from Claude Code\n\n"

/-- How things stand. -/
def statusText (autoBurn installed : Bool) : String :=
  "\n🔥 Bonzai Hook Status\n\nConfig autoBurn: " ++ (if autoBurn then "enabled" else "disabled")
    ++ "\nClaude hook: " ++ (if installed then "installed" else "not installed") ++ "\n\n"
    ++ (if autoBurn && !installed then
          "Run \"bonzai-hook hook install\" to install the hook\n\n" else "")

/-- An ending with a failure, and the files as they were. -/
def failed (w : Workspace) (h : Handling) (f : Failure) : Outcome Setback ExitCode × Node :=
  (⟨[], .error ⟨h, settingsPath.under w.root, f⟩⟩, w.files)

/-- An ending that says something, with these files. -/
def said (text : String) (files : Node) : Outcome Setback ExitCode × Node :=
  (⟨[.printed text], .ok .allow⟩, files)

/-- Writes the settings and says what has been done. -/
def store (w : Workspace) (r : Registry) (text : String) : Outcome Setback ExitCode × Node :=
  match r.save w.files with
  | .ok files => said text files
  | .error f  => failed w .write f

/-- Registers the gate. -/
def install (w : Workspace) : Outcome Setback ExitCode × Node :=
  match Registry.load w.root w.files with
  | .error f => failed w .load f
  | .ok r    =>
    match r.install Registry.gateCommand with
    | (.error m, _)   => failed w .change (.malformed m)
    | (.ok false, _)  => said alreadyInstalled w.files
    | (.ok true, r')  => store w r' installed

/-- Takes the gate out. -/
def uninstall (w : Workspace) : Outcome Setback ExitCode × Node :=
  match Registry.load w.root w.files with
  | .error f => failed w .load f
  | .ok r    =>
    match r.uninstall Registry.gateCommand with
    | (false, _) => said notInstalled w.files
    | (true, r') => store w r' removed

/-- Whether the gate is registered; settings that cannot be read are noted. -/
def look (w : Workspace) : Bool × Trace :=
  match Registry.load w.root w.files with
  | .ok r    => (r.has Registry.gateCommand, [])
  | .error f => (false, [.noted (.unreadable (settingsPath.under w.root) f)])

/-- Tells how things stand. -/
def status (w : Workspace) : Outcome Setback ExitCode × Node :=
  let hook := look w
  let config := AutoBurn.load w.root w.files
  (⟨hook.2 ++ config.2 ++ [.printed (statusText (AutoBurn.enabled config.1) hook.1)], .ok .allow⟩,
    w.files)

/-- Does what the command is to do. -/
def run : HookAction → Workspace → Outcome Setback ExitCode × Node
  | .install   => install
  | .uninstall => uninstall
  | .status    => status

end HookCommand

end LintGate
