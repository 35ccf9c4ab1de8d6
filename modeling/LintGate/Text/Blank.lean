/-!
# Text — blank characters

A text is a list of characters.  Two sets of characters count as nothing to see: `isSpace` holds
of the characters with Unicode's White_Space property, and `isBlank` also of the four information
separators, which some linters put between fields.  `trimBy` takes a set off both ends of a text.
-/

namespace LintGate.Text

/-- The characters with the White_Space property, as ranges of code points. -/
def spaceRanges : List (Nat × Nat) :=
  [(0x9, 0xD), (0x20, 0x20), (0x85, 0x85), (0xA0, 0xA0), (0x1680, 0x1680), (0x2000, 0x200A),
    (0x2028, 0x2029), (0x202F, 0x202F), (0x205F, 0x205F), (0x3000, 0x3000)]

/-- `c` lies in one of the ranges. -/
def inRanges (ranges : List (Nat × Nat)) (c : Char) : Bool :=
  ranges.any fun r => r.1 ≤ c.toNat && c.toNat ≤ r.2

/-- White space in Unicode's sense. -/
def isSpace (c : Char) : Bool :=
  inRanges spaceRanges c

/-- One of the information separators U+001C to U+001F. -/
def isSeparator (c : Char) : Bool :=
  0x1C ≤ c.toNat && c.toNat ≤ 0x1F

/-- White space or an information separator. -/
def isBlank (c : Char) : Bool :=
  isSpace c || isSeparator c

/-- `s` without its longest suffix of characters in `p`. -/
def dropEndWhile (p : Char → Bool) (s : List Char) : List Char :=
  (s.reverse.dropWhile p).reverse

/-- `s` without its longest prefix and its longest suffix of characters in `p`. -/
def trimBy (p : Char → Bool) (s : List Char) : List Char :=
  dropEndWhile p (s.dropWhile p)

end LintGate.Text
