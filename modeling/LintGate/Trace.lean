import LintGate.Journal.Filter

/-!
# The trace of a run

A run does a few things that others can see, one after the other.  The trace lists them; the text on
each stream, the programs launched and the texts announced are read off it.
-/

namespace LintGate

/-- Something a run does. -/
inductive Event where
  /-- It writes to its output. -/
  | printed (text : String)
  /-- It writes for a person on its error output. -/
  | echoed (text : String)
  /-- It makes a note in the journal. -/
  | noted (n : Note)
  /-- It launches a program. -/
  | launched (program : String) (args : List String)
  /-- It announces a text. -/
  | announced (text : String)

/-- What a run does, in order. -/
abbrev Trace := List Event

namespace Trace

/-- What is written to the output. -/
def stdout (t : Trace) : String :=
  String.join (t.filterMap fun
    | .printed s => some s
    | _          => none)

/-- What is written to the error output when the journal is filtered. -/
def stderr (stamp : Stamp) (f : Filter) (t : Trace) : String :=
  String.join (t.filterMap fun
    | .echoed s => some s
    | .noted n  => if f n then some (n.line stamp) else none
    | _         => none)

/-- The programs launched, each with its arguments. -/
def calls (t : Trace) : List (String × List String) :=
  t.filterMap fun
    | .launched p args => some (p, args)
    | _                => none

/-- The texts announced. -/
def announcements (t : Trace) : List String :=
  t.filterMap fun
    | .announced s => some s
    | _            => none

theorem calls_append (t u : Trace) : calls (t ++ u) = calls t ++ calls u := by
  simp [calls]

theorem stdout_append (t u : Trace) : stdout (t ++ u) = stdout t ++ stdout u := by
  simp [stdout]

end Trace

/-- What a run did, and how it ended. -/
structure Outcome (ε α : Type) where
  /-- What it did. -/
  trace : Trace
  /-- How it ended. -/
  result : Except ε α

end LintGate
