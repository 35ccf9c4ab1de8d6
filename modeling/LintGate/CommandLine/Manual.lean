import LintGate.CommandLine.Layers

/-!
# Command line — help and version

The pages a command line can ask for.  A page on options shows the variables with their values, so
it depends on the environment; a line feed in a value is followed by blanks up to the column of the
descriptions.
-/

namespace LintGate.CommandLine

open Text

namespace Page

/-- A text of several lines, each ended by a line feed. -/
def lines (ls : List String) : String :=
  String.join (ls.map (· ++ "\n"))

/-- The column the descriptions of options begin at. -/
def column : Nat := 36

/-- A variable and its value, as a page shows them. -/
def variableText (name : String) (value : Option Bytes) : String :=
  let shown := (Utf8.lossy (value.getD [])).flatMap fun c =>
    if c = '\n' then c :: List.replicate column ' ' else [c]
  "[env: " ++ name ++ "=" ++ String.ofList shown ++ "]"

/-- What the program is for. -/
def purpose : String :=
  "Stop hook that blocks an agent harness while the Bonzai linter reports issues"

/-- What `run` does. -/
def runPurpose : String := "Run the linter and report issues to the harness"

/-- What `hook` does. -/
def hookPurpose : String := "Manage the Stop hook in .claude/settings.local.json"

/-- What `help` does. -/
def helpPurpose : String := "Print this message or the help of the given subcommand(s)"

/-- The part of a page on the linter's command and the options of a run. -/
def runPart (env : Environment) : String :=
  lines
    ["Arguments:",
     "  [COMMAND]...  Linter command to run (default: npx bonzai-burn -b)",
     "",
     "Options:",
     "      --announce                    Announce when no issues are found "
       ++ variableText Environment.announceName env.announce,
     "      --announce-program <PROGRAM>  Program used for the announcement "
       ++ variableText Environment.programName env.program
       ++ " [default: " ++ Announcer.defaultProgram ++ "]",
     "      --announce-text <TEXT>        Text passed to the announcement program "
       ++ variableText Environment.textName env.text
       ++ " [default: \"" ++ Options.defaultText ++ "\"]",
     "  -v, --verbose                     Echo raw linter output to stderr "
       ++ variableText Environment.verboseName env.verbose,
     "  -h, --help                        Print help",
     "  -V, --version                     Print version"]

/-- The help on a command. -/
def helpText (env : Environment) : Scope → String
  | .top  =>
    lines
      [purpose,
       "",
       "Usage: bonzai-hook [OPTIONS] [-- <COMMAND>...]",
       "       bonzai-hook <COMMAND>",
       "",
       "Commands:",
       "  run   " ++ runPurpose ++ " (default)",
       "  hook  " ++ hookPurpose,
       "  help  " ++ helpPurpose,
       ""] ++ runPart env
  | .run  =>
    lines
      [runPurpose ++ " (default)",
       "",
       "Usage: bonzai-hook run [OPTIONS] [-- <COMMAND>...]",
       ""] ++ runPart env
  | .hook =>
    lines
      [hookPurpose,
       "",
       "Usage: bonzai-hook hook [ACTION]",
       "",
       "Arguments:",
       "  [ACTION]  Action to perform: install (-i), uninstall (remove, -u), status (-s). "
         ++ "Anything else installs [default: install]",
       "",
       "Options:",
       "  -h, --help     Print help",
       "  -V, --version  Print version"]
  | .help =>
    lines
      [helpPurpose,
       "",
       "Usage: bonzai-hook help [COMMAND]...",
       "",
       "Arguments:",
       "  [COMMAND]...  Print help for the subcommand(s)"]

/-- The name of a command in its version. -/
def commandName : Scope → String
  | .top  => "bonzai-hook"
  | .run  => "bonzai-hook-run"
  | .hook => "bonzai-hook-hook"
  | .help => "bonzai-hook-help"

/-- The version of the program. -/
def versionNumber : String := "0.1.0"

/-- The text of a page. -/
def text (env : Environment) : Page → String
  | .help s    => helpText env s
  | .version s => commandName s ++ " " ++ versionNumber ++ "\n"

end Page

end LintGate.CommandLine
