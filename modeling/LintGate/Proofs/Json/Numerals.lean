import LintGate.Proofs.Json.Strings

/-!
# JSON — numerals read back

A numeral has one text (`Numeral.chars`): its parts with the signs between them.  If its digits are
as the format wants them (`Numeral.Proper`), it is read back from that text, provided that what
follows does not go on it (`EndsNumeral`), which nothing in a document does.  A whole number is
written as a numeral of digits alone, and one that fits its word (`FitsWord`) is its value.
-/

namespace LintGate.Json

/-- A whole number that fits a 64-bit word, with its sign if it is negative. -/
def FitsWord (n : Int) : Prop := -(Numeral.minusBound : Int) ≤ n ∧ n < Numeral.wordBound

/-- The text does not go on digits that stand before it. -/
def EndsDigits (r : List Char) : Prop :=
  ∀ c t, r = c :: t → isDigit c = false

/-- The text does not go on a numeral that stands before it. -/
def EndsNumeral (r : List Char) : Prop :=
  ∀ c t, r = c :: t → isDigit c = false ∧ c ≠ '.' ∧ c ≠ 'e' ∧ c ≠ 'E'

/-- What ends a numeral ends its digits. -/
theorem EndsNumeral.endsDigits {r : List Char} (h : EndsNumeral r) : EndsDigits r :=
  fun c t hr => (h c t hr).1

theorem endsDigits_cons {c : Char} (hc : isDigit c = false) (r : List Char) :
    EndsDigits (c :: r) := by
  intro d t h
  obtain rfl := (List.cons.inj h).1
  exact hc

/-! ### The digits of a number -/

/-- A number is written with digits alone. -/
theorem isDigit_of_mem_chars {n : Nat} {c : Char} (h : c ∈ Decimal.chars n) : isDigit c = true := by
  have hc : c.isDigit = true := Nat.isDigit_of_mem_toDigits (by decide) (by decide) h
  simp only [Char.isDigit, Bool.and_eq_true, decide_eq_true_eq] at hc
  simp only [isDigit, Bool.and_eq_true, decide_eq_true_eq]
  exact ⟨hc.1, hc.2⟩

/-- A number is below the power of ten with as many zeros as it has digits. -/
theorem lt_pow_length_chars (n : Nat) : n < 10 ^ (Decimal.chars n).length :=
  (Nat.length_toDigits_le_iff (by decide) Nat.length_toDigits_pos).mp (Nat.le_refl _)

/-- The digits of a number stand for it. -/
theorem ofDigitChars_chars (n : Nat) : Nat.ofDigitChars 10 (Decimal.chars n) 0 = n :=
  Nat.ofDigitChars_ten_toDigits

theorem chars_ne_nil (n : Nat) : Decimal.chars n ≠ [] := Nat.toDigits_ne_nil

/-- A number but zero does not begin with a zero. -/
theorem chars_ne_zero_cons {n : Nat} (h : 0 < n) (t : List Char) : Decimal.chars n ≠ '0' :: t := by
  induction n using Nat.strong_induction_on generalizing t with
  | _ n ih =>
      rw [Decimal.chars]
      by_cases hlt : n < 10
      · rw [Nat.toDigits_of_lt_base hlt]
        have one : ∀ d < 10, 0 < d → Nat.digitChar d ≠ '0' := by decide
        exact fun e => one n hlt h (List.cons.inj e).1
      · rw [Nat.toDigits_of_base_le (by decide) (by omega)]
        intro e
        cases hq : Nat.toDigits 10 (n / 10) with
        | nil => exact Nat.toDigits_ne_nil hq
        | cons d ds =>
            rw [hq] at e
            obtain rfl := (List.cons.inj e).1
            exact ih (n / 10) (by omega) (by omega) ds hq

theorem le_ofDigitChars (acc : Nat) (ds : List Char) : acc ≤ Nat.ofDigitChars 10 ds acc := by
  induction ds generalizing acc with
  | nil => rw [Nat.ofDigitChars_nil]
  | cons c ds ih =>
      rw [Nat.ofDigitChars_cons]
      have := ih (10 * acc + (c.toNat - '0'.toNat))
      omega

/-- Digits of a value below the bound are read to the end. -/
theorem absorb_of_lt {bound acc : Nat} {ds : List Char}
    (h : Nat.ofDigitChars 10 ds acc < bound) :
    Numeral.absorb bound acc ds = (Nat.ofDigitChars 10 ds acc, []) := by
  induction ds generalizing acc with
  | nil => rfl
  | cons c ds ih =>
      rw [Nat.ofDigitChars_cons] at h ⊢
      have hnext : acc * 10 + digitValue c = 10 * acc + (c.toNat - '0'.toNat) := by
        rw [digitValue, Nat.mul_comm]
      have hle := le_ofDigitChars (10 * acc + (c.toNat - '0'.toNat)) ds
      rw [Numeral.absorb, hnext, if_pos (by omega)]
      exact ih h

theorem absorb_lt {bound acc : Nat} (h : acc < bound) (ds : List Char) :
    (Numeral.absorb bound acc ds).1 < bound := by
  induction ds generalizing acc with
  | nil => exact h
  | cons c ds ih =>
      rw [Numeral.absorb]
      by_cases hc : acc * 10 + digitValue c < bound
      · simp only [hc, if_true]
        exact ih hc
      · simp only [hc, if_false]
        exact h

/-- All digits of a number below the bound are taken in. -/
theorem absorb_chars {bound n : Nat} (h : n < bound) :
    Numeral.absorb bound 0 (Decimal.chars n) = (n, []) := by
  rw [absorb_of_lt ((ofDigitChars_chars n).symm ▸ h), ofDigitChars_chars]

/-! ### The parts of a numeral read back -/

/-- Digits are read up to what ends them. -/
theorem digits_takes {e : Reason} {ds r : List Char} (hne : ds ≠ [])
    (hds : ∀ c ∈ ds, isDigit c = true) (hr : EndsDigits r) : (digits e).Takes (ds ++ r) ds r := by
  cases ds with
  | nil => exact absurd rfl hne
  | cons d ds =>
      have hall : ∀ c ∈ ds, isDigit c = true := fun c hc => hds c (List.mem_cons_of_mem _ hc)
      have hstop : r.takeWhile isDigit = [] ∧ r.dropWhile isDigit = r := by
        cases r with
        | nil => exact ⟨rfl, rfl⟩
        | cons c t =>
            have hc := hr c t rfl
            exact ⟨by rw [List.takeWhile_cons, if_neg (by simp [hc])],
              by rw [List.dropWhile_cons, if_neg (by simp [hc])]⟩
      rw [List.cons_append, Reader.Takes, digits, if_pos (hds d List.mem_cons_self)]
      simp only [Except.map, List.takeWhile_append_of_pos hall, List.dropWhile_append_of_pos hall,
        hstop.1, hstop.2, List.append_nil]

theorem wholeDigits_of_ne {e : Reason} {s : List Char} (h : ∀ c t, s ≠ '0' :: c :: t) :
    wholeDigits e s = digits e s := by
  unfold wholeDigits
  split
  next c t => exact absurd rfl (h c t)
  next => rfl

/-- Whole digits are read up to what ends them, if no zero leads. -/
theorem wholeDigits_takes {e : Reason} {ds r : List Char} (hne : ds ≠ [])
    (hds : ∀ c ∈ ds, isDigit c = true) (hzero : ∀ c t, ds ≠ '0' :: c :: t) (hr : EndsDigits r) :
    (wholeDigits e).Takes (ds ++ r) ds r := by
  have hdigits : (digits e).Takes (ds ++ r) ds r := digits_takes hne hds hr
  by_cases hs : ∃ c t, ds ++ r = '0' :: c :: t
  · obtain ⟨c, t, hs⟩ := hs
    -- a zero in front stands alone, and what follows it is not of the numeral
    match ds, hne with
    | [d], _ =>
      obtain ⟨rfl, rfl⟩ := List.cons.inj hs
      rw [Reader.Takes, List.singleton_append, wholeDigits, if_neg (by simp [hr c t rfl])]
      rfl
    | d :: d' :: ds, _ =>
      obtain rfl := (List.cons.inj hs).1
      exact absurd rfl (hzero d' ds)
  · have hne : ∀ c t, ds ++ r ≠ '0' :: c :: t := fun c t h => hs ⟨c, t, h⟩
    rw [Reader.Takes, wholeDigits_of_ne hne]
    exact hdigits

namespace Numeral

/-- The point and the digits after it. -/
def pointChars : List Char → List Char
  | []      => []
  | d :: ds => '.' :: d :: ds

/-- The exponent behind its letter, with its sign. -/
def exponentChars : Option (Bool × List Char) → List Char
  | none             => []
  | some (minus, ds) => 'e' :: (if minus then '-' else '+') :: ds

/-- The text of a numeral without its sign. -/
def unsignedChars (n : Numeral) : List Char :=
  n.whole ++ pointChars n.fraction ++ exponentChars n.exponent

/-- The text of a numeral. -/
def chars (n : Numeral) : List Char :=
  (if n.negative then ['-'] else []) ++ n.unsignedChars

/-- The parts are digits where there have to be some, and a zero in front stands alone. -/
structure Proper (n : Numeral) : Prop where
  whole_ne : n.whole ≠ []
  whole : ∀ c ∈ n.whole, isDigit c = true
  zero_alone : ∀ c t, n.whole ≠ '0' :: c :: t
  fraction : ∀ c ∈ n.fraction, isDigit c = true
  exponent : ∀ minus ds, n.exponent = some (minus, ds) → ds ≠ [] ∧ ∀ c ∈ ds, isDigit c = true

variable {e : Reason} {r : List Char}

theorem endsDigits_exponentChars (x : Option (Bool × List Char)) (hr : EndsNumeral r) :
    EndsDigits (exponentChars x ++ r) := by
  cases x with
  | none => exact hr.endsDigits
  | some x => exact endsDigits_cons (by decide) _

theorem endsDigits_pointChars (f : List Char) (hr : EndsDigits r) :
    EndsDigits (pointChars f ++ r) := by
  cases f with
  | nil => exact hr
  | cons d ds => exact endsDigits_cons (by decide) _

/-- The digits behind a point are read, also where there is no point. -/
theorem fractionDigits_takes {f : List Char} (hf : ∀ c ∈ f, isDigit c = true) (hr : EndsDigits r)
    (hpoint : ∀ t, r ≠ '.' :: t) :
    ∃ h, fractionDigits e (pointChars f ++ r) = .ok (f, ⟨r, h⟩) := by
  cases f with
  | nil =>
      refine ⟨Nat.le_refl _, ?_⟩
      change fractionDigits e r = _
      unfold fractionDigits
      split
      next t => exact absurd rfl (hpoint t)
      next => rfl
  | cons d ds =>
      obtain ⟨h, hdigits⟩ := (digits_takes (e := e) (List.cons_ne_nil d ds) hf hr).eq_ok
      refine ⟨Nat.le_succ_of_le (Nat.le_of_lt h), ?_⟩
      change fractionDigits e ('.' :: (d :: ds ++ r)) = _
      simp only [fractionDigits, hdigits]
      rfl

/-- An exponent is read sign first. -/
theorem exponentPart_of_sign {s ds : List Char} {minus : Bool}
    {h : r.length < (exponentSign s).2.rest.length} (hs : (exponentSign s).1 = minus)
    (hds : digits e (exponentSign s).2.rest = .ok ⟨ds, r, h⟩) :
    ∃ h, exponentPart e ('e' :: s) = .ok (some (minus, ds), ⟨r, h⟩) := by
  refine ⟨Nat.le_succ_of_le (Nat.le_trans (Nat.le_of_lt h) (exponentSign s).2.within), ?_⟩
  rw [exponentPart, if_pos (.inl rfl)]
  simp only [hds, hs]

/-- An exponent is read, also where there is none. -/
theorem exponentPart_takes {x : Option (Bool × List Char)}
    (hx : ∀ minus ds, x = some (minus, ds) → ds ≠ [] ∧ ∀ c ∈ ds, isDigit c = true)
    (hr : EndsNumeral r) : ∃ h, exponentPart e (exponentChars x ++ r) = .ok (x, ⟨r, h⟩) := by
  cases x with
  | none =>
      refine ⟨Nat.le_refl _, ?_⟩
      change exponentPart e r = _
      cases r with
      | nil => rfl
      | cons c t =>
          obtain ⟨-, -, he, hE⟩ := hr c t rfl
          rw [exponentPart, if_neg (by simp [he, hE])]
          rfl
  | some x =>
      obtain ⟨minus, ds⟩ := x
      obtain ⟨hne, hds⟩ := hx minus ds rfl
      obtain ⟨h, hdigits⟩ := (digits_takes (e := e) hne hds hr.endsDigits).eq_ok
      cases minus with
      | false => exact exponentPart_of_sign (s := '+' :: (ds ++ r)) rfl hdigits
      | true => exact exponentPart_of_sign (s := '-' :: (ds ++ r)) rfl hdigits

/-! ### Numerals read back -/

/-- A proper numeral is read back behind its sign. -/
theorem unsigned_takes {n : Numeral} (hn : n.Proper) (hr : EndsNumeral r) :
    (unsignedNumeral e n.negative).Takes (n.unsignedChars ++ r) n r := by
  have hexp := endsDigits_exponentChars n.exponent hr
  have hpoint : ∀ t, exponentChars n.exponent ++ r ≠ '.' :: t := by
    intro t ht
    cases hx : n.exponent with
    | none => rw [hx] at ht; exact (hr _ t ht).2.1 rfl
    | some x => rw [hx] at ht; cases (List.cons.inj ht).1
  obtain ⟨hw, hwhole⟩ := (wholeDigits_takes (e := e) hn.whole_ne hn.whole hn.zero_alone
    (endsDigits_pointChars n.fraction hexp)).eq_ok
  obtain ⟨hf, hfraction⟩ := fractionDigits_takes (e := e) hn.fraction hexp hpoint
  obtain ⟨hx, hexponent⟩ := exponentPart_takes (e := e) hn.exponent hr
  rw [unsignedChars, List.append_assoc, List.append_assoc, Reader.Takes, unsignedNumeral]
  simp only [hwhole, bind, Except.bind, hfraction, hexponent, Except.map]

theorem numeral_of_ne {s : List Char} (h : ∀ t, s ≠ '-' :: t) :
    numeral e s = unsignedNumeral e false s := by
  unfold numeral
  split
  next t => exact absurd rfl (h t)
  next => rfl

/-- Without its sign the text of a numeral begins with a digit. -/
theorem exists_unsignedChars_cons {n : Numeral} (hn : n.Proper) :
    ∃ c t, n.unsignedChars = c :: t ∧ isDigit c = true := by
  obtain ⟨c, t, hct⟩ := List.exists_cons_of_ne_nil hn.whole_ne
  exact ⟨c, _, by rw [unsignedChars, hct]; rfl, hn.whole c (hct ▸ List.mem_cons_self)⟩

/-- A proper numeral begins with a minus sign or a digit. -/
theorem exists_chars_cons {n : Numeral} (hn : n.Proper) :
    ∃ c t, n.chars = c :: t ∧ (c = '-' ∨ isDigit c = true) := by
  rw [chars]
  cases n.negative with
  | true => exact ⟨'-', _, rfl, .inl rfl⟩
  | false =>
      obtain ⟨c, t, hct, hc⟩ := exists_unsignedChars_cons hn
      exact ⟨c, t, hct, .inr hc⟩

/-- **A proper numeral is read back.** -/
theorem takes {n : Numeral} (hn : n.Proper) (hr : EndsNumeral r) :
    (numeral e).Takes (n.chars ++ r) n r := by
  have hunsigned := unsigned_takes (e := e) hn hr
  rw [chars]
  cases hneg : n.negative with
  | true =>
      rw [hneg] at hunsigned
      obtain ⟨h, hnum⟩ := hunsigned.eq_ok
      rw [if_pos rfl, List.singleton_append, List.cons_append, Reader.Takes, numeral, hnum]
      rfl
  | false =>
      rw [hneg] at hunsigned
      have hne : ∀ t, n.unsignedChars ++ r ≠ '-' :: t := by
        intro t heq
        obtain ⟨c, u, hcu, hc⟩ := exists_unsignedChars_cons hn
        rw [hcu] at heq
        obtain rfl := (List.cons.inj heq).1
        exact absurd hc (by decide)
      rw [if_neg Bool.false_ne_true, List.nil_append, Reader.Takes, numeral_of_ne hne]
      exact hunsigned

/-- The text of a numeral is read as the number it stands for. -/
theorem number_takes {n : Numeral} {v : Number} (hn : n.Proper) (hv : n.number? = .ok v)
    (hr : EndsNumeral r) : number.Takes (n.chars ++ r) (.number n v hv) r := by
  obtain ⟨hlt, hnum⟩ := (takes (e := .endInValue) hn hr).eq_ok
  rw [Reader.Takes, number]
  simp only [hnum, bind, Except.bind]
  split
  next u hu =>
    obtain rfl : u = v := Except.ok.inj (hu.symm.trans hv)
    rfl
  next left hleft =>
    rw [hv] at hleft
    cases hleft

end Numeral

/-! ### Whole numbers -/

/-- A numeral that is read as a whole number consists of digits that make up a word. -/
theorem Numeral.parts_of_int {n : Numeral} {m : Int} (h : n.number? = .ok (.int m)) :
    ∃ w, n.fraction = [] ∧ n.exponent = none ∧
      Numeral.absorb Numeral.wordBound 0 n.whole = (w, []) ∧
      ((n.negative = false ∧ m = w) ∨ (n.negative = true ∧ w ≤ Numeral.minusBound ∧ m = -w)) := by
  rw [Numeral.number?] at h
  cases hab : Numeral.absorb Numeral.wordBound 0 n.whole with
  | mk w left =>
      rw [hab] at h
      by_cases hwhole : (left.isEmpty && n.fraction.isEmpty && n.exponent.isNone) = true
      · have h := (if_pos hwhole).symm.trans h
        simp only [Bool.and_eq_true, List.isEmpty_iff, Option.isNone_iff_eq_none] at hwhole
        refine ⟨w, hwhole.1.2, hwhole.2, by rw [hwhole.1.1], ?_⟩
        split_ifs at h with hsign hrange
        · cases h
          exact .inl ⟨by simpa using hsign, rfl⟩
        · cases h
        · cases h
          exact .inr ⟨by simpa using hsign, by omega, rfl⟩
      · -- a point, an exponent or too many digits make a double, or none
        have h := (if_neg hwhole).symm.trans h
        dsimp only at h
        split at h
        · split at h <;> cases h
        · split at h
          · split at h <;> cases h
          · split at h <;> cases h

/-- A whole number that a numeral stands for fits its word. -/
theorem fitsWord_of_number? {n : Numeral} {m : Int} (h : n.number? = .ok (.int m)) :
    FitsWord m := by
  obtain ⟨w, -, -, hab, hm⟩ := Numeral.parts_of_int h
  have hlt := absorb_lt (by decide : 0 < Numeral.wordBound) n.whole
  rw [hab, Numeral.wordBound] at hlt
  rw [Numeral.minusBound] at hm
  rw [FitsWord, Numeral.wordBound, Numeral.minusBound]
  omega

/-- The numeral that a whole number is written as. -/
def numeralOf (n : Int) : Numeral :=
  ⟨decide (n < 0), Decimal.chars n.natAbs, [], none⟩

/-- A number is not written with a leading zero. -/
theorem chars_zero_alone (n : Nat) (c : Char) (t : List Char) :
    Decimal.chars n ≠ '0' :: c :: t := by
  rcases Nat.eq_zero_or_pos n with rfl | hn
  · exact fun h => absurd (List.cons.inj h).2 (List.cons_ne_nil c t).symm
  · exact chars_ne_zero_cons hn _

/-- The numeral of a whole number is proper. -/
theorem proper_numeralOf (n : Int) : (numeralOf n).Proper where
  whole_ne := chars_ne_nil _
  whole _ hc := isDigit_of_mem_chars hc
  zero_alone := chars_zero_alone _
  fraction _ hc := absurd hc List.not_mem_nil
  exponent _ _ h := by cases h

/-- The numeral of a whole number is how the number is written. -/
theorem chars_numeralOf (n : Int) : (numeralOf n).chars = intChars n := by
  rw [Numeral.chars, Numeral.unsignedChars, numeralOf, intChars]
  simp only [Numeral.pointChars, Numeral.exponentChars, List.append_nil, decide_eq_true_eq]
  split <;> rfl

theorem natAbs_lt_wordBound {n : Int} (h : FitsWord n) : n.natAbs < Numeral.wordBound := by
  rw [FitsWord, Numeral.minusBound, Numeral.wordBound] at h
  rw [Numeral.wordBound]
  omega

theorem natAbs_le_minusBound {n : Int} (h : FitsWord n) (hn : n < 0) :
    n.natAbs ≤ Numeral.minusBound := by
  rw [FitsWord, Numeral.minusBound] at h
  rw [Numeral.minusBound]
  omega

/-- The value of a numeral of digits alone that make up a word. -/
theorem number?_whole {negative : Bool} {ds : List Char} {w : Nat}
    (h : Numeral.absorb Numeral.wordBound 0 ds = (w, [])) :
    Numeral.number? ⟨negative, ds, [], none⟩ =
      if !negative then .ok (.int w)
      else if w = 0 ∨ Numeral.minusBound < w then
        .ok (.double ⟨negative, Binary64.nearest w 1⟩)
      else .ok (.int (-w)) := by
  rw [Numeral.number?, h]
  exact if_pos rfl

/-- The numeral of a number that fits a word is read as that number. -/
theorem number?_numeralOf {n : Int} (h : FitsWord n) : (numeralOf n).number? = .ok (.int n) := by
  rw [numeralOf, number?_whole (absorb_chars (natAbs_lt_wordBound h))]
  by_cases hn : n < 0
  · have hle := natAbs_le_minusBound h hn
    have hzero : ¬(n.natAbs = 0 ∨ Numeral.minusBound < n.natAbs) := by omega
    simp only [hn, decide_true, Bool.not_true, Bool.false_eq_true, if_false, if_neg hzero]
    rw [show -(n.natAbs : Int) = n by omega]
  · simp only [hn, decide_false, Bool.not_false, if_true]
    rw [show (n.natAbs : Int) = n by omega]

end LintGate.Json
