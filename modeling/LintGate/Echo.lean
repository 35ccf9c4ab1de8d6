import LintGate.Text.Blank
import LintGate.Text.Lines

/-!
# The echo

With the echo on, a person sees what the linter wrote: a titled section for each of its outputs,
and every line of the output indented below its title.  An output of nothing but white space is
marked as empty.  With the echo off, nothing is written.
-/

namespace LintGate

open Text

/-- One thing to echo. -/
inductive Echo where
  /-- A title. -/
  | section (title : String)
  /-- A line below a title. -/
  | log (line : String)
  /-- A title, and a text below it line by line. -/
  | raw (title text : String)
  deriving DecidableEq, Repr

namespace Echo

/-- A title on a line of its own, with a free line before it. -/
def titled (title : String) : String :=
  "\n" ++ title ++ ":\n"

/-- An indented line. -/
def indented (line : String) : String :=
  "  " ++ line ++ "\n"

/-- What stands for an output with nothing to see. -/
def emptyMark : String := "(empty)"

/-- The lines below the title of an output. -/
def linesOf (text : String) : List String :=
  (if (trimBy isSpace text.toList).isEmpty then [emptyMark] else []) ++
    (rows text.toList).map String.ofList

/-- What is written for it. -/
def text : Echo → String
  | .section title => titled title
  | .log line      => indented line
  | .raw title t   => titled title ++ String.join ((linesOf t).map indented)

/-- What has been written, and a text behind it if the echo is on. -/
def emit (enabled : Bool) (out text : String) : String :=
  if enabled then out ++ text else out

/-- What has been written, and one thing more to echo behind it. -/
def echo (enabled : Bool) (out : String) : Echo → String
  | .section title => emit enabled out (titled title)
  | .log line      => emit enabled out (indented line)
  | .raw title t   =>
    if enabled then
      (linesOf t).foldl (fun out line => emit enabled out (indented line))
        (emit enabled out (titled title))
    else out

/-- What is written for several things, one after the other. -/
def written (enabled : Bool) (es : List Echo) : String :=
  es.foldl (echo enabled) ""

end Echo

end LintGate
