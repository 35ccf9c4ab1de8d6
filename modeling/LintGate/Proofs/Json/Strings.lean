import Mathlib.Tactic
import LintGate.Json.Printer
import LintGate.Json.Reader

/-!
# JSON — strings read back

`p.Takes s a r` says that the reader `p` takes `a` off the front of `s` and leaves `r`.  A written
string is taken as the string it was written for, whatever characters it holds and whatever follows
it (`string_takes`), and it is written without a control character (`space_le_of_mem_stringChars`).
-/

namespace LintGate.Json

/-- The reader takes `a` off the front of `s` and leaves `r`. -/
def Reader.Takes {α : Type} (p : Reader α) (s : List Char) (a : α) (r : List Char) : Prop :=
  (p s).map (fun x => (x.value, x.rest)) = .ok (a, r)

/-- What a reader takes it answers with. -/
theorem Reader.Takes.eq_ok {α : Type} {p : Reader α} {s r : List Char} {a : α}
    (h : p.Takes s a r) : ∃ hr, p s = .ok ⟨a, r, hr⟩ := by
  rw [Reader.Takes] at h
  cases hp : p s with
  | error e => rw [hp] at h; cases h
  | ok x =>
      rw [hp] at h
      obtain ⟨b, t, ht⟩ := x
      cases h
      exact ⟨ht, rfl⟩

/-! ### Hexadecimal digits -/

theorem hexValue?_digitChar : ∀ n < 16, hexValue? (Nat.digitChar n) = some n := by decide

/-- The two digits of a number below 256, behind two zeros. -/
theorem codeUnit_takes {n : Nat} (h : n < 256) (r : List Char) :
    codeUnit.Takes ('0' :: '0' :: Nat.digitChar (n / 16) :: Nat.digitChar (n % 16) :: r) n r := by
  have high := hexValue?_digitChar (n / 16) (by omega)
  have low := hexValue?_digitChar (n % 16) (by omega)
  have zero : hexValue? '0' = some 0 := by decide
  have value : ((0 * 16 + 0) * 16 + n / 16) * 16 + n % 16 = n := by omega
  rw [Reader.Takes, codeUnit]
  simp only [zero, high, low, value, Except.map]

/-! ### One character -/

theorem isTrailing_of_lt {n : Nat} (h : n < 0xD800) : isTrailing n = false := by
  simp only [isTrailing, Bool.and_eq_false_iff, decide_eq_false_iff_not]
  omega

theorem isLeading_of_lt {n : Nat} (h : n < 0xD800) : isLeading n = false := by
  simp only [isLeading, Bool.and_eq_false_iff, decide_eq_false_iff_not]
  omega

/-- An escape of one letter is read as its character. -/
theorem escape_letter_takes {l c : Char} (hl : l ≠ 'u') (h : escape? l = some c) (r : List Char) :
    escape.Takes (l :: r) c r := by
  rw [Reader.Takes, escape]
  simp only [hl, if_false, h, Except.map]

/-- An escape in four digits is read as its character. -/
theorem escape_unit_takes {c : Char} (h : c.toNat < 256) (r : List Char) :
    escape.Takes
      ('u' :: '0' :: '0' :: Nat.digitChar (c.toNat / 16) :: Nat.digitChar (c.toNat % 16) :: r)
      c r := by
  obtain ⟨hr, hunit⟩ := (codeUnit_takes h r).eq_ok
  rw [Reader.Takes, escape, codePoint]
  simp only [if_true, hunit, bind, Except.bind, isTrailing_of_lt (by omega : c.toNat < 0xD800),
    isLeading_of_lt (by omega : c.toNat < 0xD800), Bool.false_eq_true, if_false, Except.map,
    Read.map, Read.widen, Char.ofNat_toNat]

/-- The escape of a control character is read as that character. -/
theorem escape_control_takes {c : Char} (h : c < ' ') :
    ∃ t, escapeControl c = '\\' :: t ∧ ∀ r, escape.Takes (t ++ r) c r := by
  have hlt : c.toNat < 32 := h
  simp only [escapeControl]
  split
  · exact ⟨['b'], rfl, escape_letter_takes (by decide) (by decide)⟩
  · exact ⟨['t'], rfl, escape_letter_takes (by decide) (by decide)⟩
  · exact ⟨['n'], rfl, escape_letter_takes (by decide) (by decide)⟩
  · exact ⟨['f'], rfl, escape_letter_takes (by decide) (by decide)⟩
  · exact ⟨['r'], rfl, escape_letter_takes (by decide) (by decide)⟩
  · exact ⟨_, rfl, escape_unit_takes (by omega)⟩

/-- What is escaped is written as a backslash and a text that is read as the character. -/
theorem exists_escape {c : Char} (h : c = '"' ∨ c = '\\' ∨ c < ' ') :
    ∃ t, escapeChar c = '\\' :: t ∧ ∀ r, escape.Takes (t ++ r) c r := by
  rcases h with rfl | rfl | h
  · exact ⟨['"'], rfl, escape_letter_takes (by decide) (by decide)⟩
  · exact ⟨['\\'], rfl, escape_letter_takes (by decide) (by decide)⟩
  · have hquote : c ≠ '"' := by rintro rfl; exact absurd h (by decide)
    have hback : c ≠ '\\' := by rintro rfl; exact absurd h (by decide)
    rw [escapeChar, if_neg hquote, if_neg hback, if_pos h]
    exact escape_control_takes h

/-- A character as it is written is read as that character. -/
theorem stringTail_escapeChar {c : Char} {s cs r : List Char} (h : stringTail.Takes s cs r) :
    stringTail.Takes (escapeChar c ++ s) (c :: cs) r := by
  obtain ⟨hr, htail⟩ := h.eq_ok
  by_cases hc : c = '"' ∨ c = '\\' ∨ c < ' '
  · obtain ⟨t, ht, hesc⟩ := exists_escape hc
    obtain ⟨hs, hesc⟩ := (hesc s).eq_ok
    rw [ht, List.cons_append, Reader.Takes, stringTail, if_neg (by decide), if_pos rfl]
    simp only [hesc, htail, Except.map]
  · simp only [not_or] at hc
    obtain ⟨hquote, hback, hspace⟩ := hc
    rw [escapeChar, if_neg hquote, if_neg hback, if_neg hspace, List.singleton_append,
      Reader.Takes, stringTail, if_neg hquote, if_neg hback, if_neg hspace]
    simp only [htail, Except.map]

/-! ### Strings -/

/-- A string is read back up to its closing quote. -/
theorem stringTail_takes (s r : List Char) :
    stringTail.Takes (s.flatMap escapeChar ++ '"' :: r) s r := by
  induction s with
  | nil =>
      rw [List.flatMap_nil, List.nil_append, Reader.Takes, stringTail, if_pos rfl]
      rfl
  | cons c s ih =>
      rw [List.flatMap_cons, List.append_assoc]
      exact stringTail_escapeChar ih

/-- **A written string is read back**, behind its opening quote. -/
theorem string_takes (s : String) (r : List Char) :
    string.Takes (s.toList.flatMap escapeChar ++ '"' :: r) s r := by
  obtain ⟨h, htail⟩ := (stringTail_takes s.toList r).eq_ok
  rw [Reader.Takes, string, htail]
  simp only [Except.map, Read.map, String.ofList_toList]

/-! ### What a string is written with -/

theorem space_le_digitChar : ∀ n < 16, ' ' ≤ Nat.digitChar n := by decide

theorem space_le_of_mem_escapeControl {c d : Char} (h : c < ' ') (hd : d ∈ escapeControl c) :
    ' ' ≤ d := by
  have hlt : c.toNat < 32 := h
  simp only [escapeControl] at hd
  split at hd
  case h_6 =>
    simp only [List.mem_cons, List.not_mem_nil, or_false] at hd
    rcases hd with rfl | rfl | rfl | rfl | rfl | rfl
    · decide
    · decide
    · decide
    · decide
    · exact space_le_digitChar _ (by omega)
    · exact space_le_digitChar _ (by omega)
  all_goals
    simp only [List.mem_cons, List.not_mem_nil, or_false] at hd
    rcases hd with rfl | rfl <;> decide

/-- No control character stands in what a character is written as. -/
theorem space_le_of_mem_escapeChar {c d : Char} (hd : d ∈ escapeChar c) : ' ' ≤ d := by
  rw [escapeChar] at hd
  split at hd
  · simp only [List.mem_cons, List.not_mem_nil, or_false] at hd
    rcases hd with rfl | rfl <;> decide
  · split at hd
    · simp only [List.mem_cons, List.not_mem_nil, or_false] at hd
      rcases hd with rfl | rfl <;> decide
    · split at hd
      next hc => exact space_le_of_mem_escapeControl hc hd
      next hc =>
        obtain rfl := List.mem_singleton.mp hd
        exact Char.not_lt.mp hc

/-- A written string holds no control character below the space. -/
theorem space_le_of_mem_stringChars {s : String} {d : Char} (hd : d ∈ stringChars s) :
    ' ' ≤ d := by
  simp only [stringChars, List.cons_append, List.mem_cons, List.mem_append, List.mem_flatMap,
    List.not_mem_nil, or_false] at hd
  rcases hd with rfl | ⟨c, -, hd⟩ | rfl
  · decide
  · exact space_le_of_mem_escapeChar hd
  · decide

end LintGate.Json
