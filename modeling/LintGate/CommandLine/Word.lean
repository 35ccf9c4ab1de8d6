import LintGate.Text.Utf8

/-!
# Command line — words

A command line is a list of words, which are bytes.  How a word begins says what it can be
(`Word.shape`); what it then is depends on where it stands.
-/

namespace LintGate.CommandLine

open Text

/-- A word of the command line. -/
abbrev Word := Bytes

/-- What a word looks like. -/
inductive Shape where
  /-- Two dashes and nothing else. -/
  | dashes
  /-- Two dashes and a name, and a value if an equals sign stands behind the name. -/
  | long (name : Bytes) (value : Option Bytes)
  /-- A dash and letters. -/
  | short (letters : List (Option Char))
  /-- Anything else. -/
  | plain
  deriving DecidableEq, Repr

namespace Word

/-- The byte of a dash. -/
def dash : UInt8 := 0x2D

/-- The byte of an equals sign. -/
def equals : UInt8 := 0x3D

/-- What a word looks like. -/
def shape (w : Word) : Shape :=
  match w with
  | []         => .plain
  | b :: bs    =>
    if b ≠ dash then .plain
    else
      match bs with
      | []       => .plain
      | c :: cs  =>
        if c ≠ dash then .short (Utf8.units bs)
        else if cs.isEmpty then .dashes
        else
          match cs.dropWhile (· ≠ equals) with
          | []     => .long cs none
          | _ :: v => .long (cs.takeWhile (· ≠ equals)) (some v)

/-- The word that spells a text. -/
def spelling (s : String) : Word :=
  Utf8.encode s.toList

/-- The text a word spells, if it is valid UTF-8. -/
def text? (w : Word) : Option String :=
  (Utf8.strict? w).map String.ofList

/-- A word as it is shown in messages. -/
def shown (w : Word) : String :=
  String.ofList (Utf8.lossy w)

end Word

end LintGate.CommandLine
