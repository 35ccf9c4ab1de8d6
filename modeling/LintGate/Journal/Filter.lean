import LintGate.Journal.Note

/-!
# Journal — filters

A filter says which notes are shown.  It is read from a text by a library of its own, which is left
open here (`Filter.Reader`): of what a text means the program relies on nothing.  It hands over the
value of a variable, and if there is none, or it is refused, a text that it knows
(`Filter.ofVariable`).
-/

namespace LintGate

open Text

/-- A filter says which notes are shown. -/
abbrev Filter := Note → Bool

namespace Filter

/-- What reads filters. -/
structure Reader where
  /-- The filter that the value of a variable stands for.  A value that is no text, or that holds
  anything that cannot be read, is refused. -/
  ofValue? : Bytes → Option Filter
  /-- The filter that a text stands for.  Anything that cannot be read is passed over. -/
  ofText : String → Filter

/-- The variable that holds a filter. -/
def variableName : String := "BONZAI_HOOK_LOG"

/-- The text of the filter of a run for which none is set. -/
def defaultText (verbose : Bool) : String :=
  if verbose then "bonzai_hook=debug" else "warn"

/-- The filter of a run: the one that is set, if it can be read, and else the default one. -/
def ofVariable (reader : Reader) (verbose : Bool) (set : Option Bytes) : Filter :=
  (set.bind reader.ofValue?).getD (reader.ofText (defaultText verbose))

end Filter

end LintGate
