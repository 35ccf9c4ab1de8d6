import LintGate.Proofs.Echo

/-!
# The echo — the lines that are written

Everything that is echoed can be told from what is written.  Below the title of an output stand its
lines, each indented and each ended by a line feed, so cutting what is written at the line feeds and
taking the indent off gives the lines back; only the mark may stand before them.  Things echoed one
after the other are written one after the other (`Echo.written_faithful`).
-/

namespace LintGate.Echo

open Text

/-- A line as it is written below a title, without its end. -/
def indent (l : List Char) : List Char :=
  ' ' :: ' ' :: l

/-- What stands below the title of a text with the lines `ls`: these, and before them the mark if
all of the text is white space. -/
def below (t : String) (ls : List (List Char)) : List (List Char) :=
  if t.toList.all isSpace then "(empty)".toList :: ls else ls

/-- The lines of an echoed text are its rows, or the mark. -/
theorem linesOf_eq_below (t : String) :
    linesOf t = (below t (rows t.toList)).map String.ofList := by
  rw [linesOf_eq, below]
  split <;> rfl

/-- A text is written as a free line, its title and its lines, each ended by a line feed. -/
theorem toList_text_raw (title t : String) : (text (.raw title t)).toList =
    ([] :: (title.toList ++ [':']) :: (below t (rows t.toList)).map indent).flatMap
      fun l => l ++ ['\n'] := by
  have htitled : (titled title).toList = '\n' :: (title.toList ++ [':', '\n']) := by
    rw [titled, String.toList_append, String.toList_append]
    rfl
  have hlines (ls : List (List Char)) :
      (String.join ((ls.map String.ofList).map indented)).toList =
        (ls.map indent).flatMap fun l => l ++ ['\n'] := by
    rw [String.toList_join, List.map_map, List.flatMap_map, List.flatMap_map]
    refine List.flatMap_congr fun l _ => ?_
    rw [Function.comp_apply, toList_indented, String.toList_ofList, indent]
    rfl
  rw [text_raw, linesOf_eq_below, String.toList_append, htitled, hlines]
  simp

/-- No line of an echo holds a line feed. -/
theorem lineFeed_not_mem_below {t : String} {ls : List (List Char)} (h : Lines t.toList ls)
    {l : List Char} (hl : l ∈ below t ls) : '\n' ∉ l := by
  rw [below] at hl
  split at hl
  · rcases List.mem_cons.mp hl with rfl | hl
    · decide
    · exact h.not_mem hl
  · exact h.not_mem hl

/-- Cut at its line feeds, what is written for a text gives all of it back. -/
theorem split_text_raw {title : String} (htitle : '\n' ∉ title.toList) {t : String}
    {ls : List (List Char)} (h : Lines t.toList ls) :
    split '\n' (text (.raw title t)).toList =
      [] :: (title.toList ++ [':']) :: (below t ls).map indent ++ [[]] := by
  rw [toList_text_raw, lines_iff.mp h]
  refine split_flatMap_append fun p hp => ?_
  rcases List.mem_cons.mp hp with rfl | hp
  · exact List.not_mem_nil
  rcases List.mem_cons.mp hp with rfl | hp
  · simpa using htitle
  · obtain ⟨l, hl, rfl⟩ := List.mem_map.mp hp
    have hno := lineFeed_not_mem_below h hl
    simpa [indent] using hno

theorem written_singleton (enabled : Bool) (e : Echo) : written enabled [e] = shown enabled e := by
  rw [written_eq_join, List.map_singleton, String.join_cons, String.join_nil, String.append_empty]

/-- **What is echoed can be read back.**  Cut at its line feeds, what is written for a text is a
free line, the title with its colon, and the lines of the text, each behind two spaces, with the
mark before them exactly if all of the text is white space; nothing stands behind the last line
feed.  Several things are written one after the other, and with the echo off nothing is. -/
theorem written_faithful {title : String} (htitle : '\n' ∉ title.toList) (t : String) :
    (∃ ls, Lines t.toList ls ∧ split '\n' (written true [.raw title t]).toList =
      [] :: (title.toList ++ [':']) :: (below t ls).map indent ++ [[]]) ∧
    (∀ enabled es, written enabled es = String.join (es.map fun e => written enabled [e])) ∧
    ∀ es, written false es = "" := by
  refine ⟨⟨rows t.toList, lines_rows _, ?_⟩, ?_, ?_⟩
  · rw [written_singleton, shown, if_pos rfl]
    exact split_text_raw htitle (lines_rows _)
  · intro enabled es
    simp only [written_singleton]
    exact written_eq_join enabled es
  · intro es
    rw [written_eq_join]
    induction es with
    | nil => rfl
    | cons e es ih => rw [List.map_cons, String.join_cons, ih]; rfl

/-- White space with a carriage return of its own and one that belongs to an ending, behind the
mark; and a text that spells the mark itself, and does not end with a line feed. -/
theorem written_faithful_returns :
    split '\n' (written true [.raw "out" " \r\r\n\n"]).toList =
      ["".toList, "out:".toList, "  (empty)".toList, "   \r".toList, "  ".toList, []] ∧
    split '\n' (written true [.raw "a: b" "(empty)\n\r"]).toList =
      ["".toList, "a: b:".toList, "  (empty)".toList, "  \r".toList, []] := by
  have hout : '\n' ∉ "out".toList := by decide
  have hcolon : '\n' ∉ "a: b".toList := by decide
  obtain ⟨⟨ls, hls, hblank⟩, -⟩ := written_faithful hout " \r\r\n\n"
  obtain ⟨⟨ls', hls', hmark⟩, -⟩ := written_faithful hcolon "(empty)\n\r"
  obtain rfl := lines_iff.mp hls
  obtain rfl := lines_iff.mp hls'
  exact ⟨hblank.trans (by decide), hmark.trans (by decide)⟩

end LintGate.Echo
