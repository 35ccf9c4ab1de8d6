import LintGate.Failure
import LintGate.Json.Printer
import LintGate.Json.Reader

/-!
# The registry of stop hooks

The agent's settings are one JSON object, and the hooks it runs before it stops are the entries of
the array `Stop` in its member `hooks`.  An entry holds an array of hooks of its own, each with a
command.  The gate adds and removes entries for its command and leaves everything else where it is:
members that are there keep their places, new ones come last, and a container emptied by a removal
goes away.
-/

namespace LintGate

open Json

/-- The settings, as the members of their root. -/
structure Registry where
  /-- The members of the root. -/
  root : Members
  deriving Repr

namespace Registry

/-- The command the gate registers itself under. -/
def gateCommand : String := "bonzai-hook run"

/-- Settings with nothing in them. -/
def empty : Registry := ⟨[]⟩

/-! ### Entries -/

/-- An entry with the one hook that runs `command`. -/
def entryFor (command : String) : Value :=
  .object [("hooks", .array [.object [("type", .string "command"), ("command", .string command)]])]

/-- A hook that runs `command`. -/
def hookRuns (command : String) (hook : Value) : Bool :=
  (hook.get? "command").bind Value.text? == some command

/-- An entry of which some hook runs `command`. -/
def runs (command : String) (entry : Value) : Bool :=
  match (entry.get? "hooks").bind Value.items? with
  | some hooks => hooks.any (hookRuns command)
  | none       => false

/-- The entries of the stop hook, if the settings have them. -/
def entries? (r : Registry) : Option (List Value) :=
  ((Members.get? "hooks" r.root).bind (Value.get? "Stop")).bind Value.items?

/-- Some entry runs `command`. -/
def has (command : String) (r : Registry) : Bool :=
  match r.entries? with
  | some es => es.any (runs command)
  | none    => false

theorem runs_entryFor (c d : String) : runs c (entryFor d) = (d == c) := by
  simp [runs, entryFor, hookRuns, Value.get?, Members.get?, Value.items?, Value.text?]

theorem has_eq_any (command : String) (r : Registry) :
    r.has command = (r.entries?.getD []).any (runs command) := by
  unfold has
  cases r.entries? <;> rfl

/-! ### Installing and removing -/

/-- Adds an entry for `command` behind the others, unless one runs it already, and says whether it
did.  A container that is missing is put in on the way down to the entries.  Hooks that are not an
object, or stop entries that are not an array, are refused. -/
def install (command : String) (r : Registry) : Except Malformed Bool × Registry :=
  if r.has command then (.ok false, r)
  else
    let root := Members.ensure "hooks" (.object []) r.root
    match Members.get? "hooks" root with
    | some (.object hooks) =>
      let hooks := Members.ensure "Stop" (.array []) hooks
      match Members.get? "Stop" hooks with
      | some (.array stop) =>
        let stop := Value.array (stop ++ [entryFor command])
        (.ok true, ⟨Members.put "hooks" (.object (Members.put "Stop" stop hooks)) root⟩)
      | _ => (.error .stop, ⟨Members.put "hooks" (.object hooks) root⟩)
    | _ => (.error .hooks, ⟨root⟩)

/-- The hooks with these stop entries, or without any if none are left. -/
def withEntries (hooks : Members) (es : List Value) : Members :=
  if es.isEmpty then Members.erase "Stop" hooks else Members.put "Stop" (.array es) hooks

/-- The settings with these hooks, or without any if none are left. -/
def withHooks (r : Registry) (hooks : Members) : Registry :=
  if hooks.isEmpty then ⟨Members.erase "hooks" r.root⟩
  else ⟨Members.put "hooks" (.object hooks) r.root⟩

/-- Takes out every entry that runs `command`, and says whether there was one. -/
def uninstall (command : String) (r : Registry) : Bool × Registry :=
  match Members.get? "hooks" r.root, r.entries? with
  | some (.object hooks), some es =>
    if es.any (runs command) then
      (true, r.withHooks (withEntries hooks (es.filter fun e => !runs command e)))
    else (false, r)
  | _, _ => (false, r)

/-! ### Reading and writing -/

/-- The settings a file at `path` holds. -/
def ofFile (path : String) (content : Text.Bytes) : Except Failure Registry :=
  match Text.Utf8.strict? content with
  | none   => .error (.unreadable path .notUtf8)
  | some s =>
    match Json.parse (String.ofList s) with
    | .error m            => .error (.misread m)
    | .ok (.object root)  => .ok ⟨root⟩
    | .ok _               => .error (.notAnObject path)

/-- The text of a settings file: the document with indented lines, and a line feed behind it. -/
def text (r : Registry) : String :=
  (Value.object r.root).indented ++ "\n"

/-- The same settings but for the order of members. -/
def same (r q : Registry) : Bool :=
  (Value.object r.root).same (.object q.root)

end Registry

end LintGate
