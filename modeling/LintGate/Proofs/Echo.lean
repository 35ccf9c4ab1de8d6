import LintGate.Proofs.Gate

/-!
# The echo — what is marked as empty

Whatever is echoed is written behind what has been written, as it would be alone
(`Echo.written_eq_join`).  A text is marked as empty if all of it is white space.  The gate lets a
stop pass if all of the output is blank, and blank are the information separators too; so an output
that is let pass is marked exactly if none of them is in it (`Gate.report_marks_iff`).
-/

namespace LintGate

open Text

/-- White space is what is blank and no separator. -/
theorem Text.isSpace_iff {c : Char} :
    isSpace c = true ↔ isBlank c = true ∧ isSeparator c = false := by
  have apart : isSpace c = true → isSeparator c = false := by
    intro h
    simp only [isSpace, inRanges, spaceRanges, List.any_cons, List.any_nil, Bool.or_eq_true,
      Bool.and_eq_true, decide_eq_true_eq, Bool.false_eq_true, or_false] at h
    simp only [isSeparator, Bool.and_eq_false_iff, decide_eq_false_iff_not]
    omega
  rw [isBlank, Bool.or_eq_true]
  constructor
  · exact fun h => ⟨.inl h, apart h⟩
  · rintro ⟨h | h, hsep⟩
    · exact h
    · rw [h] at hsep
      cases hsep

namespace Echo

/-! ### Writing one thing after the other -/

/-- What is written for one thing if the echo is on. -/
def shown (enabled : Bool) (e : Echo) : String :=
  if enabled then e.text else ""

theorem foldl_emit (out : String) (ls : List String) :
    ls.foldl (fun out line => emit true out (indented line)) out =
      out ++ String.join (ls.map indented) := by
  induction ls generalizing out with
  | nil => rw [List.foldl_nil, List.map_nil, String.join_nil, String.append_empty]
  | cons l ls ih =>
      rw [List.foldl_cons, ih, emit, if_pos rfl, List.map_cons, String.join_cons,
        String.append_assoc]

/-- One thing is written behind what has been written, which stays as it is. -/
theorem echo_eq_append (enabled : Bool) (out : String) (e : Echo) :
    echo enabled out e = out ++ shown enabled e := by
  cases enabled with
  | false =>
      rw [shown, if_neg Bool.false_ne_true, String.append_empty]
      cases e <;> rfl
  | true =>
      rw [shown, if_pos rfl]
      cases e with
      | raw title t =>
          rw [echo, if_pos rfl, foldl_emit, emit, if_pos rfl, text, String.append_assoc]
      | _ => rfl

/-- Echoes are written one behind the other. -/
theorem foldl_echo (enabled : Bool) (out : String) (es : List Echo) :
    es.foldl (echo enabled) out = out ++ String.join (es.map (shown enabled)) := by
  induction es generalizing out with
  | nil => rw [List.foldl_nil, List.map_nil, String.join_nil, String.append_empty]
  | cons e es ih =>
      rw [List.foldl_cons, ih, echo_eq_append, List.map_cons, String.join_cons,
        String.append_assoc]

/-- What is written is what the echoes show, joined. -/
theorem written_eq_join (enabled : Bool) (es : List Echo) :
    written enabled es = String.join (es.map (shown enabled)) := by
  rw [written, foldl_echo, String.empty_append]

/-! ### The mark -/

theorem text_raw (title t : String) :
    text (.raw title t) = titled title ++ String.join ((linesOf t).map indented) := rfl

/-- The lines below a title are those of the text, behind the mark if all of it is white space. -/
theorem linesOf_eq (t : String) : linesOf t =
    (if t.toList.all isSpace then [emptyMark] else []) ++ (rows t.toList).map String.ofList := by
  have hblank : (trimBy isSpace t.toList).isEmpty = t.toList.all isSpace := by
    rw [Bool.eq_iff_iff, List.isEmpty_iff, trimBy_eq_nil_iff, List.all_eq_true]
  rw [linesOf, hblank]

theorem toList_indented (l : String) :
    (indented l).toList = ' ' :: ' ' :: (l.toList ++ ['\n']) := by
  rw [indented, String.toList_append, String.toList_append]
  rfl

/-- Lines that begin as the mark does: the first of them has its bracket. -/
theorem exists_of_join_eq {ls : List String} {rest : String}
    (h : String.join (ls.map indented) = indented emptyMark ++ rest) :
    ∃ l ∈ ls, '(' ∈ l.toList := by
  cases ls with
  | nil => exact absurd (congrArg String.toList h) (by simp [toList_indented])
  | cons l ls =>
      have hlist := congrArg String.toList h
      rw [List.map_cons, String.join_cons, String.toList_append, String.toList_append,
        toList_indented, toList_indented] at hlist
      -- behind the indent stands the line, or its end if there is nothing on it
      cases hl : l.toList with
      | nil =>
          rw [hl] at hlist
          simp [emptyMark] at hlist
      | cons c cs =>
          rw [hl] at hlist
          obtain rfl : c = '(' := Option.some.inj (congrArg (·[2]?) hlist)
          exact ⟨l, List.mem_cons_self, hl ▸ List.mem_cons_self⟩

/-- A text without a bracket is marked exactly if all of it is white space. -/
theorem exists_mark_iff {t : String} (h : '(' ∉ t.toList) (title : String) :
    (∃ rest, text (.raw title t) = titled title ++ indented emptyMark ++ rest) ↔
      ∀ c ∈ t.toList, isSpace c = true := by
  rw [← List.all_eq_true]
  constructor
  · rintro ⟨rest, heq⟩
    rw [text_raw, String.append_assoc, String.append_right_inj] at heq
    by_contra hall
    rw [linesOf_eq, if_neg hall, List.nil_append] at heq
    obtain ⟨l, hl, hbracket⟩ := exists_of_join_eq heq
    obtain ⟨row, hrow, rfl⟩ := List.mem_map.mp hl
    rw [String.toList_ofList] at hbracket
    exact h (mem_of_mem_rows hrow hbracket)
  · intro hall
    refine ⟨String.join (((rows t.toList).map String.ofList).map indented), ?_⟩
    rw [text_raw, linesOf_eq, if_pos hall, List.singleton_append, List.map_cons, String.join_cons,
      String.append_assoc]

end Echo

namespace Gate

/-- What is echoed of the linter's outputs, with the echo on. -/
theorem echoOf_true (c : Captured) : echoOf true c =
    [.echoed (Echo.text (.raw "linter stdout" c.stdout) ++
      Echo.text (.raw "linter stderr" c.stderr))] := by
  rw [echoOf, Echo.written_eq_join, List.map_cons, List.map_cons, List.map_nil, String.join_cons,
    String.join_cons, String.join_nil, String.append_empty]
  rfl

/-- A verdict that allows has found no issue. -/
theorem ofOutput_of_verdict {c : Captured} (h : c.verdict = .allow) :
    Issue.ofOutput c.stdout = [] := by
  by_contra hne
  rw [Captured.verdict_block hne] at h
  cases h

/-- **What is marked as empty.**  With the echo on, a stop that is let pass has both outputs of the
linter on the error output, behind what is noted and before the announcement.  The section of the
linter's output begins with the mark exactly if no information separator is in it: these are blank
to the gate, and not to the echo. -/
theorem report_marks_iff {c : Captured} (h : c.verdict = .allow) {o : Options}
    (ho : o.verbose = true) (a : Announcer) (sink : Sink) :
    let shown := Echo.text (.raw "linter stdout" c.stdout)
    (report o a sink c).trace = remarks c ++ [.noted (.counted 0)] ++
      [.echoed (shown ++ Echo.text (.raw "linter stderr" c.stderr))] ++
      (if o.announce then a o.announceText else []) ∧
    ((∃ rest, shown = Echo.titled "linter stdout" ++ Echo.indented Echo.emptyMark ++ rest) ↔
      ∀ d ∈ c.stdout.toList, isSeparator d = false) := by
  intro shown
  have hissues := ofOutput_of_verdict h
  have hblank := Issue.ofOutput_eq_nil_iff.mp hissues
  constructor
  · rw [report, h, hissues, ho, echoOf_true]
    rfl
  · have hbracket : '(' ∉ c.stdout.toList := by
      intro hm
      exact absurd (hblank _ hm) (by decide)
    rw [Echo.exists_mark_iff hbracket]
    refine forall₂_congr fun d hd => ?_
    rw [isSpace_iff]
    exact and_iff_right (hblank d hd)

/-- An output of wide spaces is let pass and marked. -/
theorem report_marks_wide_space :
    let c : Captured := { stdout := "\u2003\r\n\u3000", status := some 1 }
    ∃ rest, Echo.text (.raw "linter stdout" c.stdout) =
      Echo.titled "linter stdout" ++ Echo.indented Echo.emptyMark ++ rest := by
  intro c
  have h : c.verdict = .allow := by decide
  have hsep : ∀ d ∈ "\u2003\r\n\u3000".toList, isSeparator d = false := by simp [isSeparator]
  exact (report_marks_iff (o := { verbose := true }) h rfl .recorder .working).2.mpr hsep

/-- An output of one information separator is let pass and not marked: its section begins with the
separator itself. -/
theorem report_leaves_separator_unmarked :
    let c : Captured := { stdout := "\u001c", status := some 0 }
    c.verdict = .allow ∧
    (report { verbose := true } .recorder .working c).trace = [.noted (.counted 0),
      .echoed "\nlinter stdout:\n  \u001c\n\nlinter stderr:\n  (empty)\n"] ∧
    ¬ ∃ rest, Echo.text (.raw "linter stdout" c.stdout) =
      Echo.titled "linter stdout" ++ Echo.indented Echo.emptyMark ++ rest := by
  refine ⟨by decide, rfl, ?_⟩
  rw [Echo.exists_mark_iff (by decide)]
  exact fun h => absurd (h '\u001c' (by decide)) (by decide)

end Gate

end LintGate
