import LintGate.AutoBurn
import LintGate.Project
import LintGate.Registry
import LintGate.Trace

/-!
# Files of the project that are read and written

The registry is kept in the agent's settings file.  A missing file is an empty registry; one that
cannot be read as settings is a failure, so that nothing in it is ever written over.  The linter's
configuration is only looked at, and counts for nothing if it cannot be read.
-/

namespace LintGate

open Text

namespace Registry

/-- The registry a project holds. -/
def load (root : String) (files : Node) : Except Failure Registry :=
  let path := settingsPath.under root
  match files.at? settingsPath with
  | none                => .ok empty
  | some (.directory _) => .error (.unreadable path .isDirectory)
  | some (.file c)      => ofFile path c

/-- The project's files with this registry in their settings. -/
def save (r : Registry) (files : Node) : Except Failure Node :=
  match files.write settingsPath (Utf8.encode r.text.toList) with
  | .ok n    => .ok n
  | .error e => .error (.system e)

end Registry

namespace AutoBurn

/-- The switch in a project's configuration, if there is one that can be read. -/
def load (root : String) (files : Node) : Option Bool × Trace :=
  match files.read configPath with
  | .error _ => (none, [])
  | .ok c    =>
    match Utf8.strict? c with
    | none   => (none, [])
    | some s =>
      match parse (String.ofList s) with
      | .ok b    => (some b, [])
      | .error m => (none, [.noted (.unparsable (configPath.under root) m)])

/-- The switch is on. -/
def enabled (loaded : Option Bool) : Bool :=
  loaded.getD false

end AutoBurn

end LintGate
