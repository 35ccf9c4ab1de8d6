/-!
# Text — pieces and lines

Two ways to cut a text.  `split` keeps everything between the separators, so there is one more piece
than there are separators.  `rows` reads the line feed as the end of a line: a carriage return
before it belongs to the ending, and nothing stands after the last one.
-/

namespace LintGate.Text

/-- The pieces of `s` between the characters `sep`. -/
def split (sep : Char) : List Char → List (List Char)
  | []     => [[]]
  | c :: s =>
    if c = sep then [] :: split sep s
    else
      match split sep s with
      | []      => [[c]]
      | p :: ps => (c :: p) :: ps

/-- A line whose ending was a line feed, without a carriage return before it. -/
def chopReturn (l : List Char) : List Char :=
  if l.getLast? = some '\r' then l.dropLast else l

/-- The lines of a text, given its pieces: every piece but the last was ended by a line feed, and
an empty last piece is no line. -/
def rowsOfPieces : List (List Char) → List (List Char)
  | []           => []
  | [l]          => if l.isEmpty then [] else [l]
  | l :: m :: ls => chopReturn l :: rowsOfPieces (m :: ls)

/-- The lines of `s`. -/
def rows (s : List Char) : List (List Char) :=
  rowsOfPieces (split '\n' s)

theorem split_ne_nil (sep : Char) (s : List Char) : split sep s ≠ [] := by
  cases s with
  | nil => simp [split]
  | cons c s =>
    simp only [split]
    split
    · simp
    · split <;> simp

end LintGate.Text
