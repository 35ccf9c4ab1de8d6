import Mathlib.Tactic
import LintGate.Text.Utf8

/-!
# Text — UTF-8 sequences

`Sequence bs v` lists the well-formed byte sequences of one character, each with its code point.
They are exactly the sequences that `String.utf8EncodeChar` writes (`sequence_encodeChar`,
`Sequence.encodeChar`), and the decoder takes each as its one character (`Sequence.unitsFrom`).
Where it stands inside a character tells what ends the character (`wellFormed_cons_iff`), and a
first byte is refused exactly if it begins none (`lead_eq_none_iff`).
-/

namespace LintGate.Text.Utf8

/-- A byte behind the first one of a character. -/
def IsTail (b : UInt8) : Prop := 0x80 ≤ b.toNat ∧ b.toNat ≤ 0xBF

/-- The bytes of one character, and its code point.  A first byte at the end of its range narrows
the byte behind it: there is no longer form of a shorter sequence, no surrogate, and nothing
above U+10FFFF. -/
inductive Sequence : Bytes → Nat → Prop where
  | one {a : UInt8} : a.toNat < 0x80 → Sequence [a] a.toNat
  | two {a b : UInt8} : 0xC2 ≤ a.toNat → a.toNat ≤ 0xDF → IsTail b →
      Sequence [a, b] (a.toNat % 32 * 64 + b.toNat % 64)
  | three {a b c : UInt8} : 0xE0 ≤ a.toNat → a.toNat ≤ 0xEF → IsTail b → IsTail c →
      (a.toNat = 0xE0 → 0xA0 ≤ b.toNat) → (a.toNat = 0xED → b.toNat ≤ 0x9F) →
      Sequence [a, b, c] ((a.toNat % 16 * 64 + b.toNat % 64) * 64 + c.toNat % 64)
  | four {a b c d : UInt8} : 0xF0 ≤ a.toNat → a.toNat ≤ 0xF4 → IsTail b → IsTail c → IsTail d →
      (a.toNat = 0xF0 → 0x90 ≤ b.toNat) → (a.toNat = 0xF4 → b.toNat ≤ 0x8F) →
      Sequence [a, b, c, d]
        (((a.toNat % 8 * 64 + b.toNat % 64) * 64 + c.toNat % 64) * 64 + d.toNat % 64)

/-! ### What is written -/

theorem toNat_ofNat_of_lt {n : Nat} (h : n < 256) : (UInt8.ofNat n).toNat = n := by
  simp only [UInt8.toNat_ofNat']
  omega

/-- A code point is that of no surrogate, and not above U+10FFFF. -/
theorem toNat_valid (c : Char) : c.toNat < 0xD800 ∨ (0xDFFF < c.toNat ∧ c.toNat < 0x110000) :=
  c.valid

/-- A character is written as the sequence of its code point. -/
theorem sequence_encodeChar (c : Char) : Sequence (String.utf8EncodeChar c) c.toNat := by
  have hv := toNat_valid c
  have hval : c.val.toNat = c.toNat := rfl
  rw [String.utf8EncodeChar]
  simp only [hval]
  generalize c.toNat = v at hv
  -- the surrogates left out of the code points are what narrows the byte behind 0xED
  split_ifs with h₁ h₂ h₃
  · have ha := toNat_ofNat_of_lt (n := v) (by omega)
    rw [show v = (UInt8.ofNat v).toNat from ha.symm]
    simpa [ha] using Sequence.one (a := UInt8.ofNat v) (by omega)
  · have ha := toNat_ofNat_of_lt (n := v / 64 % 0x20 + 0xC0) (by omega)
    have hb := toNat_ofNat_of_lt (n := v % 0x40 + 0x80) (by omega)
    have h := Sequence.two (a := .ofNat (v / 64 % 0x20 + 0xC0)) (b := .ofNat (v % 0x40 + 0x80))
      (by omega) (by omega) ⟨by omega, by omega⟩
    convert h using 1
    omega
  · have ha := toNat_ofNat_of_lt (n := v / 4096 % 0x10 + 0xE0) (by omega)
    have hb := toNat_ofNat_of_lt (n := v / 64 % 0x40 + 0x80) (by omega)
    have hc := toNat_ofNat_of_lt (n := v % 0x40 + 0x80) (by omega)
    have h := Sequence.three (a := .ofNat (v / 4096 % 0x10 + 0xE0))
      (b := .ofNat (v / 64 % 0x40 + 0x80)) (c := .ofNat (v % 0x40 + 0x80))
      (by omega) (by omega) ⟨by omega, by omega⟩ ⟨by omega, by omega⟩ (by omega) (by omega)
    convert h using 1
    omega
  · have ha := toNat_ofNat_of_lt (n := v / 262144 % 0x08 + 0xF0) (by omega)
    have hb := toNat_ofNat_of_lt (n := v / 4096 % 0x40 + 0x80) (by omega)
    have hc := toNat_ofNat_of_lt (n := v / 64 % 0x40 + 0x80) (by omega)
    have hd := toNat_ofNat_of_lt (n := v % 0x40 + 0x80) (by omega)
    have h := Sequence.four (a := .ofNat (v / 262144 % 0x08 + 0xF0))
      (b := .ofNat (v / 4096 % 0x40 + 0x80)) (c := .ofNat (v / 64 % 0x40 + 0x80))
      (d := .ofNat (v % 0x40 + 0x80)) (by omega) (by omega) ⟨by omega, by omega⟩
      ⟨by omega, by omega⟩ ⟨by omega, by omega⟩ (by omega) (by omega)
    convert h using 1
    omega

theorem toNat_charOfNat {v : Nat} (h : v < 0xD800 ∨ (0xDFFF < v ∧ v < 0x110000)) :
    (Char.ofNat v).val.toNat = v := by
  have hv : v.isValidChar := h
  rw [Char.ofNat, dif_pos hv]
  rfl

theorem ofNat_eq_of_toNat {b : UInt8} {n : Nat} (h : b.toNat = n) : UInt8.ofNat n = b := by
  rw [← h, UInt8.ofNat_toNat]

/-- Each well-formed sequence is the one that is written for its code point. -/
theorem Sequence.encodeChar {bs : Bytes} {v : Nat} (h : Sequence bs v) :
    String.utf8EncodeChar (Char.ofNat v) = bs := by
  cases h with
  | @one a ha =>
      rw [String.utf8EncodeChar, toNat_charOfNat (by omega)]
      simp only [show a.toNat ≤ 0x7F by omega, if_true, UInt8.ofNat_toNat]
  | @two a b ha ha' hb =>
      obtain ⟨hb, hb'⟩ := hb
      rw [String.utf8EncodeChar, toNat_charOfNat (by omega)]
      rw [if_neg (by omega), if_pos (by omega), ofNat_eq_of_toNat (b := a) (by omega),
        ofNat_eq_of_toNat (b := b) (by omega)]
  | @three a b c ha ha' hb hc hE0 hED =>
      obtain ⟨hb, hb'⟩ := hb
      obtain ⟨hc, hc'⟩ := hc
      rw [String.utf8EncodeChar, toNat_charOfNat (by omega)]
      rw [if_neg (by omega), if_neg (by omega), if_pos (by omega),
        ofNat_eq_of_toNat (b := a) (by omega), ofNat_eq_of_toNat (b := b) (by omega),
        ofNat_eq_of_toNat (b := c) (by omega)]
  | @four a b c d ha ha' hb hc hd hF0 hF4 =>
      obtain ⟨hb, hb'⟩ := hb
      obtain ⟨hc, hc'⟩ := hc
      obtain ⟨hd, hd'⟩ := hd
      rw [String.utf8EncodeChar, toNat_charOfNat (by omega)]
      rw [if_neg (by omega), if_neg (by omega), if_neg (by omega),
        ofNat_eq_of_toNat (b := a) (by omega), ofNat_eq_of_toNat (b := b) (by omega),
        ofNat_eq_of_toNat (b := c) (by omega), ofNat_eq_of_toNat (b := d) (by omega)]

/-! ### Steps of the decoder -/

/-- A byte below 0x80 is a character. -/
theorem lead_one {b : Nat} (h : b < 0x80) : lead b = ([some (Char.ofNat b)], .start) := by
  rw [lead, if_pos h]

/-- A byte that leads two waits for one more. -/
theorem lead_two {b : Nat} (h : 0xC2 ≤ b) (h' : b ≤ 0xDF) :
    lead b = ([], .within (b % 32) 0 0x80 0xBF) := by
  rw [lead, if_neg (by omega), if_pos ⟨h, h'⟩]

/-- The least byte that may follow the first byte `b`. -/
def lowest (b : Nat) : Nat :=
  if b = 0xE0 then 0xA0 else if b = 0xF0 then 0x90 else 0x80

/-- The greatest byte that may follow the first byte `b`. -/
def highest (b : Nat) : Nat :=
  if b = 0xED then 0x9F else if b = 0xF4 then 0x8F else 0xBF

/-- What the range behind a first byte narrows down to. -/
theorem follows_iff {a b : Nat} : lowest a ≤ b ∧ b ≤ highest a ↔
    (0x80 ≤ b ∧ b ≤ 0xBF) ∧ (a = 0xE0 → 0xA0 ≤ b) ∧ (a = 0xED → b ≤ 0x9F) ∧
      (a = 0xF0 → 0x90 ≤ b) ∧ (a = 0xF4 → b ≤ 0x8F) := by
  rw [lowest, highest]
  split_ifs <;> omega

/-- The range behind a first byte lies within 0x80 to 0xBF. -/
theorem range_behind (a : Nat) :
    0x80 ≤ lowest a ∧ lowest a ≤ highest a ∧ highest a ≤ 0xBF := by
  rw [lowest, highest]
  split_ifs <;> omega

/-- A byte that leads three waits for two more, the first of them in bounds of its own. -/
theorem lead_three {b : Nat} (h : 0xE0 ≤ b) (h' : b ≤ 0xEF) :
    lead b = ([], .within (b % 16) 1 (lowest b) (highest b)) := by
  by_cases hE0 : b = 0xE0
  · rw [hE0]
    rfl
  · by_cases hED : b = 0xED
    · rw [hED]
      rfl
    · rw [lead, if_neg (by omega), if_neg (by omega), if_neg hE0, if_neg hED, if_pos (by omega),
        lowest, if_neg hE0, if_neg (by omega), highest, if_neg hED, if_neg (by omega)]

/-- A byte that leads four waits for three more, the first of them in bounds of its own. -/
theorem lead_four {b : Nat} (h : 0xF0 ≤ b) (h' : b ≤ 0xF4) :
    lead b = ([], .within (b % 8) 2 (lowest b) (highest b)) := by
  obtain rfl | rfl | rfl | rfl | rfl : b = 0xF0 ∨ b = 0xF1 ∨ b = 0xF2 ∨ b = 0xF3 ∨ b = 0xF4 := by
    omega
  all_goals rfl

/-- Any other byte leads nothing. -/
theorem lead_invalid {b : Nat} (h : 0x80 ≤ b ∧ b < 0xC2 ∨ 0xF4 < b) :
    lead b = ([none], .start) := by
  rw [lead, if_neg (by omega), if_neg (by omega), if_neg (by omega), if_neg (by omega),
    if_neg (by omega), if_neg (by omega), if_neg (by omega), if_neg (by omega)]

/-- What a first byte may begin: a sequence of one byte, of two, of three or of four, or none. -/
theorem first_byte_cases (b : Nat) : b < 0x80 ∨ (0xC2 ≤ b ∧ b ≤ 0xDF) ∨ (0xE0 ≤ b ∧ b ≤ 0xEF) ∨
    (0xF0 ≤ b ∧ b ≤ 0xF4) ∨ (0x80 ≤ b ∧ b < 0xC2 ∨ 0xF4 < b) := by
  omega

/-- The last byte that was waited for completes the character. -/
theorem step_last {bits low high b : Nat} (h : low ≤ b) (h' : b ≤ high) :
    step (.within bits 0 low high) b = ([some (Char.ofNat (bits * 64 + b % 64))], .start) := by
  rw [step, if_pos ⟨h, h'⟩]

/-- A byte that was waited for, and is not the last, adds its bits. -/
theorem step_more {bits owed low high b : Nat} (h : low ≤ b) (h' : b ≤ high) :
    step (.within bits (owed + 1) low high) b =
      ([], .within (bits * 64 + b % 64) owed 0x80 0xBF) := by
  rw [step, if_pos ⟨h, h'⟩]

/-- A byte out of bounds cuts the sequence off, and is looked at anew. -/
theorem step_cut {bits owed low high b : Nat} (h : ¬(low ≤ b ∧ b ≤ high)) :
    step (.within bits owed low high) b = (none :: (lead b).1, (lead b).2) := by
  cases owed <;> rw [step, if_neg h]

theorem unitsFrom_cons (q : State) (b : UInt8) (bs : Bytes) :
    unitsFrom q (b :: bs) = (step q b.toNat).1 ++ unitsFrom (step q b.toNat).2 bs := by
  cases q <;> rfl

/-- Inside a character the next byte is awaited in a range of bytes of 0x80 and above. -/
def Waiting : State → Prop
  | .start               => True
  | .within _ _ low high => 0x80 ≤ low ∧ low ≤ high ∧ high ≤ 0xBF

theorem waiting_lead (b : Nat) : Waiting (lead b).2 := by
  rcases first_byte_cases b with h₁ | ⟨h₂, h₂'⟩ | ⟨h₃, h₃'⟩ | ⟨h₄, h₄'⟩ | hbad
  · rw [lead_one h₁]
    trivial
  · rw [lead_two h₂ h₂']
    exact ⟨le_rfl, by decide, le_rfl⟩
  · rw [lead_three h₃ h₃']
    exact range_behind b
  · rw [lead_four h₄ h₄']
    exact range_behind b
  · rw [lead_invalid hbad]
    trivial

/-- After any byte the decoder is at the start, or within a sequence with bounds. -/
theorem waiting_step (q : State) (b : Nat) : Waiting (step q b).2 := by
  cases q with
  | start => exact waiting_lead b
  | within bits owed low high =>
      by_cases h : low ≤ b ∧ b ≤ high
      · cases owed with
        | zero => simp [step_last h.1 h.2, Waiting]
        | succ n => simp [step_more h.1 h.2, Waiting]
      · rw [step_cut h]
        exact waiting_lead b

/-! ### What is read -/

/-- A well-formed sequence is read as its one character, whatever follows it. -/
theorem Sequence.unitsFrom {bs : Bytes} {v : Nat} (h : Sequence bs v) (r : Bytes) :
    unitsFrom .start (bs ++ r) = some (Char.ofNat v) :: unitsFrom .start r := by
  cases h with
  | one ha =>
      simp only [List.cons_append, List.nil_append, unitsFrom_cons, step, lead_one ha]
  | two ha ha' hb =>
      simp only [List.cons_append, List.nil_append, unitsFrom_cons, step.eq_1, lead_two ha ha',
        step_last hb.1 hb.2]
  | @three a b c ha ha' hb hc hE0 hED =>
      -- the other two first bytes with a narrower range begin a longer sequence
      obtain ⟨hlow, hhigh⟩ : lowest a.toNat ≤ b.toNat ∧ b.toNat ≤ highest a.toNat :=
        follows_iff.mpr ⟨hb, hE0, hED, by omega, by omega⟩
      simp only [List.cons_append, List.nil_append, unitsFrom_cons, step.eq_1, lead_three ha ha',
        step_more hlow hhigh, step_last hc.1 hc.2]
  | @four a b c d ha ha' hb hc hd hF0 hF4 =>
      obtain ⟨hlow, hhigh⟩ : lowest a.toNat ≤ b.toNat ∧ b.toNat ≤ highest a.toNat :=
        follows_iff.mpr ⟨hb, by omega, by omega, hF0, hF4⟩
      simp only [List.cons_append, List.nil_append, unitsFrom_cons, step.eq_1, lead_four ha ha',
        step_more hlow hhigh, step_more hc.1 hc.2, step_last hd.1 hd.2]

theorem unitsFrom_within_more {bits owed low high : Nat} {b : UInt8} {r : Bytes}
    (h : low ≤ b.toNat) (h' : b.toNat ≤ high) :
    unitsFrom (.within bits (owed + 1) low high) (b :: r) =
      unitsFrom (.within (bits * 64 + b.toNat % 64) owed 0x80 0xBF) r := by
  rw [unitsFrom_cons, step_more h h', List.nil_append]

/-! ### What ends a character -/

/-- The bytes of one character. -/
def WellFormed (cs : Bytes) : Prop := ∃ v, Sequence cs v

/-- The bytes end a character of which `owed + 1` bytes are missing, the next one within a range. -/
def Completes : (owed low high : Nat) → Bytes → Prop
  | 0,        low, high, ds => ∃ b, ds = [b] ∧ low ≤ b.toNat ∧ b.toNat ≤ high
  | owed + 1, low, high, ds =>
    ∃ b r, ds = b :: r ∧ (low ≤ b.toNat ∧ b.toNat ≤ high) ∧ Completes owed 0x80 0xBF r

/-- Bytes complete a sequence exactly if the first is in its bounds and the others complete what is
left. -/
theorem completes_succ_cons_iff {owed low high : Nat} {b : UInt8} {ds : Bytes} :
    Completes (owed + 1) low high (b :: ds) ↔
      (low ≤ b.toNat ∧ b.toNat ≤ high) ∧ Completes owed 0x80 0xBF ds := by
  simp [Completes]

/-- Every sequence that was begun can be completed. -/
theorem exists_completes {owed low high : Nat} (h : low ≤ high) (h' : high ≤ 0xBF) :
    ∃ ds, Completes owed low high ds := by
  have hlow : (UInt8.ofNat low).toNat = low := toNat_ofNat_of_lt (by omega)
  induction owed generalizing low high with
  | zero => exact ⟨[.ofNat low], _, rfl, by omega, by omega⟩
  | succ n ih =>
      obtain ⟨ds, hds⟩ : ∃ ds, Completes n 0x80 0xBF ds := ih (by omega) le_rfl (by decide)
      exact ⟨.ofNat low :: ds, completes_succ_cons_iff.mpr ⟨⟨by omega, by omega⟩, hds⟩⟩

/-- A byte in range goes on with the character, or ends it. -/
theorem exists_completes_cons {owed low high : Nat} {b : UInt8}
    (h : low ≤ b.toNat ∧ b.toNat ≤ high) : ∃ es, Completes owed low high (b :: es) := by
  cases owed with
  | zero => exact ⟨[], b, rfl, h⟩
  | succ n =>
      obtain ⟨es, hes⟩ : ∃ es, Completes n 0x80 0xBF es := exists_completes (by omega) le_rfl
      exact ⟨es, completes_succ_cons_iff.mpr ⟨h, hes⟩⟩

/-- The first byte of a character stands for itself, begins one or begins none. -/
theorem lead_cases (b : Nat) : (b < 0x80 ∧ lead b = ([some (Char.ofNat b)], .start)) ∨
    lead b = ([none], .start) ∨
    ∃ bits owed low high, lead b = ([], .within bits owed low high) := by
  rcases first_byte_cases b with h₁ | ⟨h₂, h₂'⟩ | ⟨h₃, h₃'⟩ | ⟨h₄, h₄'⟩ | hbad
  · exact .inl ⟨h₁, lead_one h₁⟩
  · exact .inr (.inr ⟨_, _, _, _, lead_two h₂ h₂'⟩)
  · exact .inr (.inr ⟨_, _, _, _, lead_three h₃ h₃'⟩)
  · exact .inr (.inr ⟨_, _, _, _, lead_four h₄ h₄'⟩)
  · exact .inr (.inl (lead_invalid hbad))

/-- The well-formed sequences are those the decoder takes as a whole. -/
theorem wellFormed_cons_iff {a : UInt8} {ds : Bytes} :
    WellFormed (a :: ds) ↔ (a.toNat < 0x80 ∧ ds = []) ∨
      ∃ bits owed low high, lead a.toNat = ([], .within bits owed low high) ∧
        Completes owed low high ds := by
  constructor
  · rintro ⟨v, h⟩
    cases h with
    | one ha => exact .inl ⟨ha, rfl⟩
    | two ha ha' hb => exact .inr ⟨_, _, _, _, lead_two ha ha', _, rfl, hb⟩
    | three ha ha' hb hc hE0 hED =>
        have hrange := follows_iff.mpr ⟨hb, hE0, hED, by omega, by omega⟩
        exact .inr ⟨_, _, _, _, lead_three ha ha', _, _, rfl, hrange, _, rfl, hc⟩
    | four ha ha' hb hc hd hF0 hF4 =>
        have hrange := follows_iff.mpr ⟨hb, by omega, by omega, hF0, hF4⟩
        exact .inr ⟨_, _, _, _, lead_four ha ha', _, _, rfl, hrange, _, _, rfl, hc, _, rfl, hd⟩
  · rintro (⟨ha, rfl⟩ | ⟨bits, owed, low, high, hlead, hds⟩)
    · exact ⟨_, .one ha⟩
    · rcases first_byte_cases a.toNat with h₁ | ⟨h₂, h₂'⟩ | ⟨h₃, h₃'⟩ | ⟨h₄, h₄'⟩ | hbad
      · rw [lead_one h₁] at hlead
        cases hlead
      · rw [lead_two h₂ h₂'] at hlead
        cases hlead
        obtain ⟨b, rfl, hb⟩ := hds
        exact ⟨_, .two h₂ h₂' hb⟩
      · rw [lead_three h₃ h₃'] at hlead
        cases hlead
        obtain ⟨b, _, rfl, hb, c, rfl, hc⟩ := hds
        obtain ⟨ht, hE0, hED, -, -⟩ := follows_iff.mp hb
        exact ⟨_, .three h₃ h₃' ht hc hE0 hED⟩
      · rw [lead_four h₄ h₄'] at hlead
        cases hlead
        obtain ⟨b, _, rfl, hb, c, _, rfl, hc, d, rfl, hd⟩ := hds
        obtain ⟨ht, -, -, hF0, hF4⟩ := follows_iff.mp hb
        exact ⟨_, .four h₄ h₄' ht hc hd hF0 hF4⟩
      · rw [lead_invalid hbad] at hlead
        cases hlead

/-- Behind a leading byte the well-formed sequences are those that complete it. -/
theorem wellFormed_cons_iff_of_lead {a : UInt8} {ds : Bytes} {bits owed low high : Nat}
    (h : lead a.toNat = ([], .within bits owed low high)) :
    WellFormed (a :: ds) ↔ Completes owed low high ds := by
  rw [wellFormed_cons_iff]
  constructor
  · rintro (⟨ha, -⟩ | ⟨_, _, _, _, hlead, hds⟩)
    · rw [lead_one ha] at h
      cases h
    · rw [h] at hlead
      cases hlead
      exact hds
  · exact fun hds => .inr ⟨_, _, _, _, h, hds⟩

/-- A byte is refused exactly if it leads no well-formed sequence. -/
theorem lead_eq_none_iff {a : UInt8} :
    lead a.toNat = ([none], .start) ↔ ∀ ds, ¬ WellFormed (a :: ds) := by
  constructor
  · intro h ds hds
    rcases wellFormed_cons_iff.mp hds with ⟨ha, -⟩ | ⟨_, _, _, _, hlead, -⟩
    · rw [lead_one ha] at h
      cases h
    · rw [h] at hlead
      cases hlead
  · intro h
    rcases lead_cases a.toNat with ⟨ha, -⟩ | hnone | ⟨bits, owed, low, high, hlead⟩
    · exact absurd (wellFormed_cons_iff.mpr (.inl ⟨ha, rfl⟩)) (h [])
    · exact hnone
    · have hw := waiting_lead a.toNat
      rw [hlead] at hw
      obtain ⟨-, hrange, hhigh⟩ := hw
      obtain ⟨ds, hds⟩ : ∃ ds, Completes owed low high ds := exists_completes hrange hhigh
      exact absurd ((wellFormed_cons_iff_of_lead hlead).mpr hds) (h ds)

end LintGate.Text.Utf8
