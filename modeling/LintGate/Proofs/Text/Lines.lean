import Mathlib.Data.List.DropRight
import LintGate.Text.Blank
import LintGate.Text.Lines

/-!
# Text — what trimming and cutting keep

What `trimBy` leaves of a text is told by how the text is made up: characters of the set, what is
left, characters of the set, and neither end of what is left is in the set (`trimBy_eq_iff`).
`split` is the library's `List.splitOn`: no piece holds the separator, each other character is in
some piece, the two sides of a separator are cut on their own (`split_append_cons`), and pieces
without the separator are found again in the text they make up (`split_flatMap`).  `rows` are the
lines of a text as its line feeds end them (`lines_iff`).
-/

namespace LintGate.Text

/-! ### Trimming -/

/-- Neither end of a text is in the set. -/
structure Bare (p : Char → Bool) (s : List Char) : Prop where
  head : ∀ c ∈ s.head?, p c = false
  last : ∀ c ∈ s.getLast?, p c = false

section Trim

variable {p : Char → Bool} {s t a b : List Char}

theorem bare_nil : Bare p [] where
  head := by simp
  last := by simp

/-- What is left of a text that was trimmed is bare. -/
theorem bare_trimBy (p : Char → Bool) (s : List Char) : Bare p (trimBy p s) where
  head := by
    intro c hc
    obtain ⟨r, hr⟩ := List.rdropWhile_prefix p (s.dropWhile p)
    have hhead : (s.dropWhile p).head? = some c := by
      rw [← hr]
      exact List.mem_head?_append_of_mem_head? hc
    have hnot := List.head?_dropWhile_not p s
    rwa [hhead] at hnot
  last := by
    intro c hc
    obtain ⟨hne, rfl⟩ := List.mem_getLast?_eq_getLast hc
    exact Bool.eq_false_iff.mpr (List.rdropWhile_last_not p _ hne)

/-- What is trimmed off is in the set. -/
theorem exists_trimBy (p : Char → Bool) (s : List Char) :
    ∃ a b, s = a ++ trimBy p s ++ b ∧ (∀ c ∈ a, p c = true) ∧ ∀ c ∈ b, p c = true := by
  refine ⟨s.takeWhile p, (s.dropWhile p).rtakeWhile p, ?_, ?_, ?_⟩
  · have hback : trimBy p s ++ (s.dropWhile p).rtakeWhile p = s.dropWhile p :=
      List.rdropWhile_append_rtakeWhile ..
    rw [List.append_assoc, hback, List.takeWhile_append_dropWhile]
  · exact fun c hc => List.mem_takeWhile_imp hc
  · exact fun c hc => List.mem_rtakeWhile_imp hc

/-- A tail of characters in the set is dropped with what is in front of it. -/
theorem dropEndWhile_append_of_pos (hb : ∀ c ∈ b, p c = true) (s : List Char) :
    dropEndWhile p (s ++ b) = dropEndWhile p s := by
  rw [dropEndWhile, List.reverse_append, List.dropWhile_append_of_pos (by simpa using hb),
    dropEndWhile]

theorem dropEndWhile_eq_self (h : Bare p s) : dropEndWhile p s = s := by
  refine List.rdropWhile_eq_self_iff.mpr fun hne => ?_
  simp [h.last _ (List.getLast_mem_getLast? hne)]

/-- **What trimming leaves**: nothing at an end of it is in the set, and all that stood around it
is. -/
theorem trimBy_eq_iff : trimBy p s = t ↔ Bare p t ∧
    ∃ a b, s = a ++ t ++ b ∧ (∀ c ∈ a, p c = true) ∧ ∀ c ∈ b, p c = true := by
  constructor
  · rintro rfl
    exact ⟨bare_trimBy p s, exists_trimBy p s⟩
  · rintro ⟨ht, a, b, rfl, ha, hb⟩
    rw [List.append_assoc, trimBy, List.dropWhile_append_of_pos ha]
    cases t with
    | nil =>
        rw [List.nil_append, List.dropWhile_eq_nil_iff.mpr hb]
        rfl
    | cons c t =>
        have hc : p c = false := ht.head c rfl
        rw [List.cons_append, List.dropWhile_cons_of_neg (by simp [hc]), ← List.cons_append,
          dropEndWhile_append_of_pos hb, dropEndWhile_eq_self ht]

/-- A bare text is trimmed to itself. -/
theorem trimBy_eq_self (h : Bare p s) : trimBy p s = s :=
  trimBy_eq_iff.mpr ⟨h, [], [], by simp⟩

/-- Characters of the set around a text come off with its own. -/
theorem trimBy_append (ha : ∀ c ∈ a, p c = true) (hb : ∀ c ∈ b, p c = true) (s : List Char) :
    trimBy p (a ++ s ++ b) = trimBy p s := by
  obtain ⟨a', b', hs, ha', hb'⟩ := exists_trimBy p s
  refine trimBy_eq_iff.mpr ⟨bare_trimBy p s, a ++ a', b' ++ b, ?_, ?_, ?_⟩
  · conv_lhs => rw [hs]
    simp only [List.append_assoc]
  · exact List.forall_mem_append.mpr ⟨ha, ha'⟩
  · exact List.forall_mem_append.mpr ⟨hb', hb⟩

theorem mem_of_mem_trimBy {c : Char} (h : c ∈ trimBy p s) : c ∈ s := by
  obtain ⟨a, b, hs, -, -⟩ := exists_trimBy p s
  rw [hs]
  simp [h]

/-- A text is trimmed to nothing exactly if all its characters are in the set. -/
theorem trimBy_eq_nil_iff : trimBy p s = [] ↔ ∀ c ∈ s, p c = true := by
  rw [trimBy_eq_iff]
  constructor
  · rintro ⟨-, a, b, rfl, ha, hb⟩
    rw [List.append_nil]
    exact List.forall_mem_append.mpr ⟨ha, hb⟩
  · exact fun h => ⟨bare_nil, s, [], by simpa using h⟩

end Trim

/-! ### Cutting -/

theorem split_cons_self (sep : Char) (s : List Char) :
    split sep (sep :: s) = [] :: split sep s := by
  rw [split, if_pos rfl]

theorem split_cons_of_ne {sep c : Char} (h : c ≠ sep) (s : List Char) :
    ∃ p ps, split sep s = p :: ps ∧ split sep (c :: s) = (c :: p) :: ps := by
  cases hs : split sep s with
  | nil => exact absurd hs (split_ne_nil sep s)
  | cons p ps => exact ⟨p, ps, rfl, by rw [split, if_neg h, hs]⟩

/-- The pieces are those of the library's function. -/
theorem split_eq_splitOn (sep : Char) (s : List Char) : split sep s = s.splitOn sep := by
  induction s with
  | nil => rfl
  | cons c s ih =>
      rw [List.splitOn_cons_eq_if_modifyHead, ← ih]
      by_cases hc : c = sep
      · rw [hc, split_cons_self, beq_self_eq_true, if_pos rfl]
      · obtain ⟨p, ps, hs, hcs⟩ := split_cons_of_ne hc s
        rw [hs, hcs, beq_false_of_ne hc]
        rfl

theorem split_of_not_mem {sep : Char} {s : List Char} (h : sep ∉ s) : split sep s = [s] := by
  rw [split_eq_splitOn, List.splitOn_eq_singleton h]

/-- The two sides of a separator are cut on their own. -/
theorem split_append_cons (sep : Char) (a b : List Char) :
    split sep (a ++ sep :: b) = split sep a ++ split sep b := by
  simp only [split_eq_splitOn]
  exact List.splitOnP_append_cons a b (beq_self_eq_true sep)

/-- What stands before the first separator is the first piece. -/
theorem split_piece_append {sep : Char} {l : List Char} (h : sep ∉ l) (s : List Char) :
    split sep (l ++ sep :: s) = l :: split sep s := by
  rw [split_append_cons, split_of_not_mem h, List.singleton_append]

/-- Induction along a text: its last piece, and a piece with a separator and more text behind it. -/
@[elab_as_elim]
theorem pieces_induction (sep : Char) {motive : List Char → Prop}
    (last : ∀ l, sep ∉ l → motive l)
    (more : ∀ l s, sep ∉ l → motive s → motive (l ++ sep :: s)) (s : List Char) : motive s := by
  -- by the number of characters, as what stands behind a separator has fewer
  induction hn : s.length using Nat.strong_induction_on generalizing s with
  | _ n ih =>
      by_cases hs : sep ∈ s
      · obtain ⟨l, t, rfl, hl⟩ := List.eq_append_cons_of_mem hs
        exact more l t hl (ih t.length (by simp [← hn]; omega) t rfl)
      · exact last s hs

/-- No piece holds the separator. -/
theorem not_mem_of_mem_split {sep : Char} {s p : List Char} (h : p ∈ split sep s) : sep ∉ p := by
  induction s using pieces_induction sep with
  | last l hl =>
      rw [split_of_not_mem hl] at h
      obtain rfl := List.mem_singleton.mp h
      exact hl
  | more l s hl ih =>
      rw [split_piece_append hl] at h
      rcases List.mem_cons.mp h with rfl | h
      · exact hl
      · exact ih h

/-- The characters of the pieces are those of the text, the separator apart. -/
theorem exists_mem_split_iff {sep c : Char} {s : List Char} :
    (∃ p ∈ split sep s, c ∈ p) ↔ c ∈ s ∧ c ≠ sep := by
  induction s using pieces_induction sep with
  | last l hl =>
      have hne (hc : c ∈ l) : c ≠ sep := ne_of_mem_of_not_mem hc hl
      simpa [split_of_not_mem hl] using hne
  | more l s hl ih =>
      have hne (hc : c ∈ l) : c ≠ sep := ne_of_mem_of_not_mem hc hl
      simp only [split_piece_append hl, List.mem_cons, or_and_right, exists_or, exists_eq_left, ih,
        List.mem_append]
      tauto

/-- What is in a piece is in the text. -/
theorem mem_of_mem_split {sep c : Char} {s p : List Char} (h : p ∈ split sep s) (hc : c ∈ p) :
    c ∈ s :=
  (exists_mem_split_iff.mp ⟨p, h, hc⟩).1

/-- Pieces without the separator, each but the first behind one, are found again. -/
theorem split_flatMap {sep : Char} {p : List Char} {ps : List (List Char)} (hp : sep ∉ p)
    (hps : ∀ q ∈ ps, sep ∉ q) : split sep (p ++ ps.flatMap fun q => sep :: q) = p :: ps := by
  induction ps generalizing p with
  | nil => simpa using split_of_not_mem hp
  | cons q qs ih =>
      rw [List.flatMap_cons, List.cons_append, split_piece_append hp,
        ih (hps q List.mem_cons_self) fun r hr => hps r (List.mem_cons_of_mem _ hr)]

/-- Pieces without the separator, each with one behind it, are found again. -/
theorem split_flatMap_append {sep : Char} {ps : List (List Char)} (hps : ∀ p ∈ ps, sep ∉ p) :
    split sep (ps.flatMap fun p => p ++ [sep]) = ps ++ [[]] := by
  induction ps with
  | nil => rfl
  | cons p ps ih =>
      rw [List.flatMap_cons, List.append_assoc, List.singleton_append,
        split_piece_append (hps p List.mem_cons_self),
        ih fun q hq => hps q (List.mem_cons_of_mem _ hq), List.cons_append]

/-! ### Lines -/

/-- The lines of a text: each line feed ends one, together with a carriage return before it, and
what stands behind the last line feed is one unless it is nothing. -/
inductive Lines : List Char → List (List Char) → Prop where
  | nothing : Lines [] []
  | last {l : List Char} (hne : l ≠ []) (hl : '\n' ∉ l) : Lines l [l]
  | fed {l s : List Char} {ls : List (List Char)} (hl : '\n' ∉ l) (hr : l.getLast? ≠ some '\r')
      (h : Lines s ls) : Lines (l ++ '\n' :: s) (l :: ls)
  | returned {l s : List Char} {ls : List (List Char)} (hl : '\n' ∉ l) (h : Lines s ls) :
      Lines (l ++ '\r' :: '\n' :: s) (l :: ls)

/-- A text without a line feed is one line, or none if it is empty. -/
theorem rows_of_not_mem {l : List Char} (h : '\n' ∉ l) : rows l = if l.isEmpty then [] else [l] := by
  rw [rows, split_of_not_mem h, rowsOfPieces]

/-- What stands before the first line feed is the first line. -/
theorem rows_piece_append {l : List Char} (h : '\n' ∉ l) (s : List Char) :
    rows (l ++ '\n' :: s) = chopReturn l :: rows s := by
  rw [rows, rows, split_piece_append h]
  cases hs : split '\n' s with
  | nil => exact absurd hs (split_ne_nil _ s)
  | cons p ps => rfl

theorem chopReturn_append (l : List Char) : chopReturn (l ++ ['\r']) = l := by
  rw [chopReturn, List.getLast?_concat, if_pos rfl, List.dropLast_concat]

/-- The lines of a text are lines of it. -/
theorem lines_rows (s : List Char) : Lines s (rows s) := by
  induction s using pieces_induction '\n' with
  | last l hl =>
      rw [rows_of_not_mem hl]
      cases l with
      | nil => exact .nothing
      | cons c l => exact .last (List.cons_ne_nil c l) hl
  | more l s hl ih =>
      rw [rows_piece_append hl]
      by_cases hr : l.getLast? = some '\r'
      · obtain ⟨l, rfl⟩ := List.getLast?_eq_some_iff.mp hr
        rw [chopReturn_append, List.append_assoc, List.singleton_append]
        exact .returned (fun hm => hl (List.mem_append_left _ hm)) ih
      · rw [chopReturn, if_neg hr]
        exact .fed hl hr ih

/-- **The lines of a text** are its rows. -/
theorem lines_iff {s : List Char} {ls : List (List Char)} : Lines s ls ↔ rows s = ls := by
  constructor
  · intro h
    induction h with
    | nothing => rfl
    | @last l hne hl => rw [rows_of_not_mem hl, List.isEmpty_eq_false_iff.mpr hne]; rfl
    | fed hl hr _ ih => rw [rows_piece_append hl, ih, chopReturn, if_neg hr]
    | @returned l s ls hl _ ih =>
        have hreturn : '\n' ∉ l ++ ['\r'] := by simpa using hl
        rw [List.append_cons, rows_piece_append hreturn, ih, chopReturn_append]
  · rintro rfl
    exact lines_rows s

/-- No line holds a line feed. -/
theorem Lines.not_mem {s l : List Char} {ls : List (List Char)} (h : Lines s ls) (hl : l ∈ ls) :
    '\n' ∉ l := by
  induction h with
  | nothing => cases hl
  | last _ hlast => rwa [List.mem_singleton.mp hl]
  | fed hfed _ _ ih =>
      rcases List.mem_cons.mp hl with rfl | hl
      · exact hfed
      · exact ih hl
  | returned hreturned _ ih =>
      rcases List.mem_cons.mp hl with rfl | hl
      · exact hreturned
      · exact ih hl

/-- A line is a piece, or one without its last character. -/
theorem exists_of_mem_rowsOfPieces {ps : List (List Char)} {l : List Char}
    (h : l ∈ rowsOfPieces ps) : ∃ p ∈ ps, l <+: p := by
  induction ps with
  | nil => cases h
  | cons p ps ih =>
      cases ps with
      | nil =>
          rw [rowsOfPieces] at h
          split at h
          · cases h
          · obtain rfl := List.mem_singleton.mp h
            exact ⟨l, List.mem_cons_self, List.prefix_rfl⟩
      | cons q qs =>
          rw [rowsOfPieces] at h
          rcases List.mem_cons.mp h with rfl | h
          · refine ⟨p, List.mem_cons_self, ?_⟩
            rw [chopReturn]
            split
            · exact List.dropLast_prefix p
            · exact List.prefix_rfl
          · obtain ⟨p', hp', hl⟩ := ih h
            exact ⟨p', List.mem_cons_of_mem _ hp', hl⟩

/-- What is in a line is in the text. -/
theorem mem_of_mem_rows {s l : List Char} {c : Char} (h : l ∈ rows s) (hc : c ∈ l) : c ∈ s := by
  obtain ⟨p, hp, hl⟩ := exists_of_mem_rowsOfPieces h
  exact mem_of_mem_split hp (hl.subset hc)

end LintGate.Text
