/-!
# Text — UTF-8

Bytes are read into characters one byte at a time.  `step` takes the decoder over one byte; what it
gives is a list of *units*: `some c` for a character, and `none` for each maximal run of bytes that
begins like a character and is cut short, or cannot begin one.  A text with no `none` is valid
UTF-8 (`strict?`); replacing every `none` by U+FFFD reads any bytes (`lossy`).

A byte below 0x80 stands for itself wherever it comes, so a line feed ends whatever was begun
before it.
-/

namespace LintGate.Text

/-- A sequence of bytes. -/
abbrev Bytes := List UInt8

namespace Utf8

/-- Where the decoder stands between two bytes. -/
inductive State where
  /-- Between characters. -/
  | start
  /-- Inside a character: the bits read so far, the number of bytes owed after the next one, and
  the least and greatest value of the next one. -/
  | within (bits owed low high : Nat)
  deriving DecidableEq, Repr

/-- The first byte of a character. -/
def lead (b : Nat) : List (Option Char) × State :=
  if b < 0x80 then ([some (Char.ofNat b)], .start)
  else if 0xC2 ≤ b ∧ b ≤ 0xDF then ([], .within (b % 32) 0 0x80 0xBF)
  else if b = 0xE0 then ([], .within 0 1 0xA0 0xBF)
  else if b = 0xED then ([], .within 0xD 1 0x80 0x9F)
  else if 0xE1 ≤ b ∧ b ≤ 0xEF then ([], .within (b % 16) 1 0x80 0xBF)
  else if b = 0xF0 then ([], .within 0 2 0x90 0xBF)
  else if 0xF1 ≤ b ∧ b ≤ 0xF3 then ([], .within (b % 8) 2 0x80 0xBF)
  else if b = 0xF4 then ([], .within 4 2 0x80 0x8F)
  else ([none], .start)

/-- One byte: the units it completes, and where the decoder stands after it.  A byte that cannot
go on the character begun ends its run and is read again as a first byte. -/
def step : State → Nat → List (Option Char) × State
  | .start, b => lead b
  | .within bits owed low high, b =>
    if low ≤ b ∧ b ≤ high then
      match owed with
      | 0     => ([some (Char.ofNat (bits * 64 + b % 64))], .start)
      | n + 1 => ([], .within (bits * 64 + b % 64) n 0x80 0xBF)
    else (none :: (lead b).1, (lead b).2)

/-- The units of the bytes from a state on.  A character not ended by the end of the bytes is cut
short. -/
def unitsFrom : State → Bytes → List (Option Char)
  | .start, []        => []
  | .within _ _ _ _, [] => [none]
  | q, b :: bs        => (step q b.toNat).1 ++ unitsFrom (step q b.toNat).2 bs

/-- The units of a sequence of bytes. -/
def units (bs : Bytes) : List (Option Char) :=
  unitsFrom .start bs

/-- The character shown for a unit. -/
def shown (u : Option Char) : Char :=
  u.getD '\uFFFD'

/-- The bytes as text, with U+FFFD for what is no character. -/
def lossy (bs : Bytes) : List Char :=
  (units bs).map shown

/-- The bytes as text, if they are valid UTF-8. -/
def strict? (bs : Bytes) : Option (List Char) :=
  if (units bs).all Option.isSome then some (lossy bs) else none

/-- The bytes of a text. -/
def encode (s : List Char) : Bytes :=
  s.flatMap String.utf8EncodeChar

/-- The number of bytes of a text. -/
def size : List Char → Nat
  | []     => 0
  | c :: s => c.utf8Size + size s

end Utf8

end LintGate.Text
