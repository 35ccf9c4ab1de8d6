import LintGate.Proofs.Json.Strings

/-!
# JSON — the parts of a container read back

A container is read part by part, each where `nextItem` or `nextKey` goes on.  Whatever gap stands
before a token, the readers go on at the token (`onToken_token`), so a part that is read is followed
by the parts read behind it (`parts_more`) or by the end of the container (`parts_done`).
-/

namespace LintGate.Json

/-- White space that may stand between tokens. -/
def Gap (g : List Char) : Prop := ∀ c ∈ g, isGap c = true

theorem gap_nil : Gap [] := fun _ h => absurd h List.not_mem_nil

theorem gap_cons {c : Char} {g : List Char} (hc : isGap c = true) (hg : Gap g) : Gap (c :: g) :=
  List.forall_mem_cons.mpr ⟨hc, hg⟩

/-- White space before a token is passed over. -/
theorem skipGap_token {g : List Char} {c : Char} (hg : Gap g) (hc : isGap c = false)
    (r : List Char) : skipGap (g ++ c :: r) = c :: r := by
  rw [skipGap, List.dropWhile_append_of_pos hg, List.dropWhile_cons, if_neg (by simp [hc])]

/-- A reader that wants a token finds it behind the gap. -/
theorem onToken_token {β : Type} {e : Reason} {g : List Char} {c : Char} {r : List Char}
    {k : (d : Char) → (t : List Char) → t.length < (g ++ c :: r).length → Except Fault β}
    (hg : Gap g) (hc : isGap c = false) :
    onToken e (g ++ c :: r) k = k c r (length_lt_of_skipGap (skipGap_token hg hc r)) :=
  onToken_of_skipGap (skipGap_token hg hc r)

/-- A token without a gap before it. -/
theorem onToken_cons {β : Type} {e : Reason} {c : Char} {r : List Char}
    {k : (d : Char) → (t : List Char) → t.length < (c :: r).length → Except Fault β}
    (hc : isGap c = false) : onToken e (c :: r) k = k c r (Nat.lt_succ_self _) :=
  onToken_of_skipGap (skipGap_token gap_nil hc r)

/-- A word is read from its own letters. -/
theorem word_takes (ws s : List Char) : ∃ h, word ws (ws ++ s) = .ok ⟨s, h⟩ := by
  induction ws with
  | nil => exact ⟨_, rfl⟩
  | cons w ws ih =>
      obtain ⟨h, hw⟩ := ih
      refine ⟨Nat.le_succ_of_le h, ?_⟩
      change word (w :: ws) (w :: (ws ++ s)) = _
      rw [word, if_pos rfl, hw]

theorem colon_takes (s : List Char) : ∃ h, colon (':' :: s) = .ok ⟨s, h⟩ := by
  refine ⟨Nat.le_succ _, ?_⟩
  rw [colon, onToken_cons (by decide), if_pos rfl]

/-! ### Where a container goes on -/

/-- The container at `s` ends, and `r` follows it. -/
def EndsAt (next : Bool → (s : List Char) → Except Fault (Next s)) (first : Bool)
    (s r : List Char) : Prop :=
  ∃ h, next first s = .ok (.done r h)

/-- The container at `s` goes on with a part at `t`. -/
def GoesOnAt (next : Bool → (s : List Char) → Except Fault (Next s)) (first : Bool)
    (s t : List Char) : Prop :=
  ∃ h, next first s = .ok (.more ⟨t, h⟩)

/-- An array ends at its bracket, in front of the first item and behind any. -/
theorem nextItem_done (first : Bool) {g : List Char} (hg : Gap g) (r : List Char) :
    EndsAt nextItem first (g ++ ']' :: r) r := by
  refine ⟨length_lt_of_skipGap (skipGap_token hg (by decide) r), ?_⟩
  rw [nextItem, onToken_token hg (by decide), if_pos rfl]

/-- The first item begins behind white space alone. -/
theorem nextItem_first {g : List Char} {c : Char} (hg : Gap g) (hc : isGap c = false)
    (hne : c ≠ ']') (r : List Char) :
    GoesOnAt nextItem true (g ++ c :: r) (c :: r) := by
  refine ⟨length_cons_le c (length_lt_of_skipGap (skipGap_token hg hc r)), ?_⟩
  rw [nextItem, onToken_token hg hc, if_neg hne, if_pos rfl]

/-- A further item begins behind a comma. -/
theorem nextItem_comma {g : List Char} {c : Char} (hg : Gap g) (hc : isGap c = false)
    (hne : c ≠ ']') (r : List Char) :
    GoesOnAt nextItem false (',' :: (g ++ c :: r)) (c :: r) := by
  refine ⟨by simp only [List.length_cons, List.length_append]; omega, ?_⟩
  rw [nextItem, onToken_cons (by decide), if_neg (by decide), if_neg (by decide), if_pos rfl,
    onToken_token hg hc, if_neg hne]

/-- An object ends at its brace, in front of the first member and behind any. -/
theorem nextKey_done (first : Bool) {g : List Char} (hg : Gap g) (r : List Char) :
    EndsAt nextKey first (g ++ '\x7d' :: r) r := by
  refine ⟨length_lt_of_skipGap (skipGap_token hg (by decide) r), ?_⟩
  rw [nextKey, onToken_token hg (by decide), if_pos rfl]

/-- The first member begins behind white space alone. -/
theorem nextKey_first {g : List Char} (hg : Gap g) (r : List Char) :
    GoesOnAt nextKey true (g ++ '"' :: r) r := by
  refine ⟨length_le_of_lt (length_lt_of_skipGap (skipGap_token hg (by decide) r)), ?_⟩
  rw [nextKey, onToken_token hg (by decide), if_neg (by decide), if_pos rfl, if_pos rfl]

/-- A further member begins behind a comma. -/
theorem nextKey_comma {g : List Char} (hg : Gap g) (r : List Char) :
    GoesOnAt nextKey false (',' :: (g ++ '"' :: r)) r := by
  refine ⟨by simp only [List.length_cons, List.length_append]; omega, ?_⟩
  rw [nextKey, onToken_cons (by decide), if_neg (by decide), if_neg (by decide), if_pos rfl,
    onToken_token hg (by decide), if_pos rfl]

/-! ### Parts -/

section

variable {α : Type} {next : Bool → (s : List Char) → Except Fault (Next s)} {p : Reader α}
  {first : Bool} {s r : List Char}

/-- Where parts end, there are none. -/
theorem parts_done (h : EndsAt next first s r) :
    (parts next p first).Takes s [] r := by
  obtain ⟨hr, hnext⟩ := h
  rw [Reader.Takes, parts, hnext]
  rfl

/-- Where parts go on, the next one comes before the rest. -/
theorem parts_more {t u : List Char} {a : α} {as : List α}
    (h : GoesOnAt next first s t) (ha : p.Takes t a u)
    (has : (parts next p false).Takes u as r) : (parts next p first).Takes s (a :: as) r := by
  obtain ⟨ht, hnext⟩ := h
  obtain ⟨hu, ha⟩ := ha.eq_ok
  obtain ⟨hr, has⟩ := has.eq_ok
  rw [Reader.Takes, parts, hnext]
  simp only [ha, has, Except.map]

/-- A key as it is written, behind its opening quote, and a value its reader takes. -/
theorem member_takes {k : String} {a : α} (ha : p.Takes s a r) :
    (member p).Takes (k.toList.flatMap escapeChar ++ '"' :: ':' :: s) (k, a) r := by
  obtain ⟨hk, hkey⟩ := (string_takes k (':' :: s)).eq_ok
  obtain ⟨hc, hcolon⟩ := colon_takes s
  obtain ⟨hr, ha⟩ := ha.eq_ok
  rw [Reader.Takes, member, hkey]
  simp only [bind, Except.bind, hcolon, ha, Except.map]

end

end LintGate.Json
