import LintGate.Issue
import LintGate.Proofs.Text.Lines

/-!
# Issues — line by line

A text is trimmed before it is cut into lines.  That changes nothing: blanks before or behind a
text hold no issue and alter none, whatever line feeds are among them (`ofLines_blank_append`,
`ofLines_append_blank`), so the issues are those of the lines of the text as it is
(`ofText_eq_ofLines`).  From this the rest is told by line:

* the two sides of a line feed are read on their own (`ofText_append_lineFeed`);
* a text has no issue exactly if every character of it is blank (`ofText_eq_nil_iff`);
* the lists of issues are exactly the lists of texts that look like one (`IsIssue`), and joined by
  line feeds such a list is read as it was (`ofText_intercalate`).
-/

namespace LintGate.Issue

open Text

theorem isBlank_lineFeed : isBlank '\n' = true := by decide

/-! ### Lines of a text as it is -/

/-- The issues of a text that is not trimmed before it is cut. -/
def ofLines (s : List Char) : List (List Char) :=
  ((split '\n' s).map (trimBy isBlank)).filter fun l => !l.isEmpty

/-- The issues are the lines, trimmed, that are not empty then. -/
theorem mem_ofLines_iff {s i : List Char} :
    i ∈ ofLines s ↔ (∃ l ∈ split '\n' s, trimBy isBlank l = i) ∧ i ≠ [] := by
  simp [ofLines]

/-- The two sides of a line feed are read on their own. -/
theorem ofLines_append_lineFeed (a b : List Char) :
    ofLines (a ++ '\n' :: b) = ofLines a ++ ofLines b := by
  rw [ofLines, split_append_cons, List.map_append, List.filter_append, ofLines, ofLines]

/-- A single line is told by what trimming leaves of it. -/
theorem ofLines_eq_of_trimBy_eq {l m : List Char} (hl : '\n' ∉ l) (hm : '\n' ∉ m)
    (h : trimBy isBlank l = trimBy isBlank m) : ofLines l = ofLines m := by
  rw [ofLines, ofLines, split_of_not_mem hl, split_of_not_mem hm, List.map_singleton, h,
    List.map_singleton]

/-- There is no issue exactly if all is blank. -/
theorem ofLines_eq_nil_iff {s : List Char} : ofLines s = [] ↔ ∀ c ∈ s, isBlank c = true := by
  simp only [ofLines, List.filter_eq_nil_iff, List.forall_mem_map, Bool.not_eq_true,
    Bool.not_eq_false', List.isEmpty_iff, trimBy_eq_nil_iff]
  constructor
  · intro h c hc
    by_cases hn : c = '\n'
    · exact hn ▸ isBlank_lineFeed
    · obtain ⟨l, hl, hcl⟩ := exists_mem_split_iff.mpr ⟨hc, hn⟩
      exact h l hl c hcl
  · exact fun h l hl c hc => h c (mem_of_mem_split hl hc)

/-! ### Blanks around a text -/

theorem ofLines_append_blank {b : List Char} (hb : ∀ c ∈ b, isBlank c = true) (s : List Char) :
    ofLines (s ++ b) = ofLines s := by
  induction s using pieces_induction '\n' with
  | more l s hl ih =>
      rw [List.append_assoc, List.cons_append, ofLines_append_lineFeed, ih,
        ← ofLines_append_lineFeed]
  | last l hl =>
      -- on the last line stand the blanks up to their first line feed
      have htrim {b : List Char} (hb : ∀ c ∈ b, isBlank c = true) :
          trimBy isBlank (l ++ b) = trimBy isBlank l :=
        trimBy_append (List.forall_mem_nil _) hb l
      by_cases hn : '\n' ∈ b
      · obtain ⟨front, back, rfl, hfront⟩ := List.eq_append_cons_of_mem hn
        rw [List.forall_mem_append, List.forall_mem_cons] at hb
        rw [← List.append_assoc, ofLines_append_lineFeed, ofLines_eq_nil_iff.mpr hb.2.2,
          List.append_nil]
        exact ofLines_eq_of_trimBy_eq (by simp [hl, hfront]) hl (htrim hb.1)
      · exact ofLines_eq_of_trimBy_eq (by simp [hl, hn]) hl (htrim hb)

theorem ofLines_blank_append {a : List Char} (ha : ∀ c ∈ a, isBlank c = true) (s : List Char) :
    ofLines (a ++ s) = ofLines s := by
  induction a using pieces_induction '\n' with
  | more l a hl ih =>
      rw [List.forall_mem_append, List.forall_mem_cons] at ha
      rw [List.append_assoc, List.cons_append, ofLines_append_lineFeed,
        ofLines_eq_nil_iff.mpr ha.1, List.nil_append, ih ha.2.2]
  | last a hn =>
      -- on the first line stand the blanks behind their last line feed
      have htrim (l : List Char) : trimBy isBlank (a ++ l) = trimBy isBlank l := by
        simpa using trimBy_append ha (List.forall_mem_nil _) l
      by_cases hs : '\n' ∈ s
      · obtain ⟨l, t, rfl, hl⟩ := List.eq_append_cons_of_mem hs
        rw [← List.append_assoc, ofLines_append_lineFeed, ofLines_append_lineFeed,
          ofLines_eq_of_trimBy_eq (by simp [hn, hl]) hl (htrim l)]
      · exact ofLines_eq_of_trimBy_eq (by simp [hn, hs]) hs (htrim s)

/-- A text need not be trimmed before it is cut. -/
theorem ofText_eq_ofLines (s : List Char) : ofText s = ofLines s := by
  obtain ⟨a, b, hs, ha, hb⟩ := exists_trimBy isBlank s
  conv_rhs => rw [hs, ofLines_append_blank hb, ofLines_blank_append ha]
  rfl

/-- **Issues line by line.**  The issues of an output are its pieces between line feeds, each
without its longest prefix and its longest suffix of blanks, those left out of which nothing is
left. -/
theorem ofOutput_eq_pieces (output : String) :
    ofOutput output = (((output.toList.splitOn '\n').map fun l =>
      (l.dropWhile isBlank).rdropWhile isBlank).filter (· ≠ [])).map String.ofList := by
  have hfilter : (fun l : List Char => !l.isEmpty) = fun l => decide (l ≠ []) := by
    funext l
    cases l <;> rfl
  rw [ofOutput, ofText_eq_ofLines, ofLines, split_eq_splitOn, hfilter]
  rfl

/-- Whole lines and parts of two are trimmed off, and what stands inside a line is kept. -/
example : ofOutput "\u2003\n \u001fa\u001cb\r\n\n\tc \r\n\u001d\n" = ["a\u001cb", "c"] := by
  decide

/-! ### What a text tells -/

/-- A line feed separates the issues on its two sides. -/
theorem ofText_append_lineFeed (a b : List Char) :
    ofText (a ++ '\n' :: b) = ofText a ++ ofText b := by
  simp only [ofText_eq_ofLines, ofLines_append_lineFeed]

/-- A text without an issue is blank, and the other way round. -/
theorem ofText_eq_nil_iff {s : List Char} : ofText s = [] ↔ ∀ c ∈ s, isBlank c = true := by
  rw [ofText_eq_ofLines, ofLines_eq_nil_iff]

/-- An output holds no issue exactly if it is blank. -/
theorem ofOutput_eq_nil_iff {output : String} :
    ofOutput output = [] ↔ ∀ c ∈ output.toList, isBlank c = true := by
  rw [ofOutput, List.map_eq_nil_iff, ofText_eq_nil_iff]

/-! ### What an issue looks like -/

/-- There is something in it, it is on one line, and no blank stands at an end of it. -/
structure IsIssue (i : List Char) : Prop where
  ne_nil : i ≠ []
  one_line : '\n' ∉ i
  bare : Bare isBlank i

/-- What is found in a text is an issue. -/
theorem isIssue_of_mem_ofText {s i : List Char} (h : i ∈ ofText s) : IsIssue i := by
  rw [ofText_eq_ofLines, mem_ofLines_iff] at h
  obtain ⟨⟨l, hl, rfl⟩, hne⟩ := h
  exact ⟨hne, fun hn => not_mem_of_mem_split hl (mem_of_mem_trimBy hn), bare_trimBy isBlank l⟩

theorem isIssue_of_mem_ofOutput {output i : String} (h : i ∈ ofOutput output) :
    IsIssue i.toList := by
  obtain ⟨l, hl, rfl⟩ := List.mem_map.mp h
  rw [String.toList_ofList]
  exact isIssue_of_mem_ofText hl

theorem not_mem_of_mem_ofOutput {output i : String} (h : i ∈ ofOutput output) :
    '\n' ∉ i.toList :=
  (isIssue_of_mem_ofOutput h).one_line

/-- An issue is found in itself, alone. -/
theorem ofText_of_isIssue {i : List Char} (h : IsIssue i) : ofText i = [i] := by
  rw [ofText_eq_ofLines, ofLines, split_of_not_mem h.one_line, List.map_singleton,
    trimBy_eq_self h.bare]
  simp [h.ne_nil]

/-- Issues on lines of their own are read as they were. -/
theorem ofText_intercalate : ∀ {is : List (List Char)}, (∀ i ∈ is, IsIssue i) →
    ofText (['\n'].intercalate is) = is
  | [], _ => rfl
  | [i], h => by
      rw [List.intercalate_singleton]
      exact ofText_of_isIssue (h i List.mem_cons_self)
  | i :: j :: is, h => by
      obtain ⟨hi, hrest⟩ := List.forall_mem_cons.mp h
      rw [List.intercalate_cons_cons, List.append_assoc, List.singleton_append,
        ofText_append_lineFeed, ofText_of_isIssue hi, ofText_intercalate hrest,
        List.singleton_append]

/-- Issues are found again in their lines. -/
theorem ofOutput_intercalate {issues : List String} (h : ∀ i ∈ issues, IsIssue i.toList) :
    ofOutput ("\n".intercalate issues) = issues := by
  have hread : ofText (['\n'].intercalate (issues.map String.toList)) = issues.map String.toList :=
    ofText_intercalate (List.forall_mem_map.mpr h)
  rw [ofOutput, String.toList_intercalate, show "\n".toList = ['\n'] from rfl, hread, List.map_map]
  exact List.map_id'' (fun i => String.ofList_toList) issues

/-- **The lists of issues.**  A list is the issues of some output exactly if each of its members
looks like an issue; such a list is read as it was from its members on lines of their own, so the
issues of an output are read again from those lines. -/
theorem ofOutput_image :
    (∀ issues, (∃ output, ofOutput output = issues) ↔ ∀ i ∈ issues, IsIssue i.toList) ∧
    (∀ issues, (∀ i ∈ issues, IsIssue i.toList) → ofOutput ("\n".intercalate issues) = issues) ∧
    ∀ output, ofOutput ("\n".intercalate (ofOutput output)) = ofOutput output := by
  refine ⟨fun issues => ⟨?_, fun h => ?_⟩, fun issues h => ?_, fun output => ?_⟩
  · rintro ⟨output, rfl⟩ i hi
    exact isIssue_of_mem_ofOutput hi
  · exact ⟨"\n".intercalate issues, ofOutput_intercalate h⟩
  · exact ofOutput_intercalate h
  · exact ofOutput_intercalate fun i hi => isIssue_of_mem_ofOutput hi

end LintGate.Issue
