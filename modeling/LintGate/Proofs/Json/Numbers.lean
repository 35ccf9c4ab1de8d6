import LintGate.Proofs.Json.Shortest

/-!
# JSON — numbers written and read again

A numeral denotes a rational number (`Numeral.decimal`), and so does a number: a whole number
itself, and a double the decimal it is written as (`Number.decimal`).  Every number that a numeral
is read as is written as a proper numeral of the number it denotes (`Number.numeral`), and that
numeral is read again, never out of range (`Number.exists_number?`).

A numeral that is read as a whole number denotes it (`Numeral.decimal_of_int`); one that is read as
a double need not.
-/

namespace LintGate.Json

open Binary64

/-! ### What is denoted -/

namespace Numeral

/-- The power of ten behind the letter. -/
def exponentValue (n : Numeral) : Int :=
  match n.exponent with
  | none             => 0
  | some (minus, ds) =>
    if minus then -(Nat.ofDigitChars 10 ds 0 : Int) else Nat.ofDigitChars 10 ds 0

/-- The digits as one number. -/
def significand (n : Numeral) : Nat :=
  Nat.ofDigitChars 10 (n.whole ++ n.fraction) 0

/-- The number a numeral denotes. -/
def decimal (n : Numeral) : ℚ :=
  (if n.negative then -1 else 1) * n.significand * (10 : ℚ) ^ (n.exponentValue - n.fraction.length)

theorem eq_ofDigitChars_of_absorb {bound acc w : Nat} {ds : List Char}
    (h : absorb bound acc ds = (w, [])) : w = Nat.ofDigitChars 10 ds acc := by
  induction ds generalizing acc with
  | nil => exact (Prod.mk.inj h).1.symm
  | cons c ds ih =>
      rw [absorb] at h
      split at h
      · rw [ih h, Nat.ofDigitChars_cons, digitValue, Nat.mul_comm]
      · cases (Prod.mk.inj h).2

/-- **A numeral read as a whole number denotes that number.** -/
theorem decimal_of_int {n : Numeral} {m : Int} (h : n.number? = .ok (.int m)) :
    n.decimal = m := by
  obtain ⟨w, hfraction, hexponent, hab, hm⟩ := parts_of_int h
  have hdecimal : n.decimal = (if n.negative then -1 else 1) * w := by
    rw [decimal, significand, exponentValue, hfraction, hexponent, List.append_nil,
      ← eq_ofDigitChars_of_absorb hab]
    simp
  rw [hdecimal]
  rcases hm with ⟨hneg, rfl⟩ | ⟨hneg, -, rfl⟩ <;> simp [hneg]

end Numeral

namespace Number

/-- The number that is denoted by the text of a number. -/
def decimal : Number → ℚ
  | .int n    => n
  | .double d =>
    (if d.negative then -1 else 1) * if d.units = 0 then 0 else (Shortest.ofUnits d.units).value

end Number

/-! ### Digits laid out -/

/-- The numeral that digits are laid out as. -/
def Layout.numeral (l : Layout) (negative : Bool) (ds : List Char) (e : Int) : Numeral :=
  if l.least ≤ e ∧ e ≤ l.greatest then
    if e < 0 then ⟨negative, ['0'], List.replicate (-e - 1).toNat '0' ++ ds, none⟩
    else
      let n := e.toNat + 1
      if ds.length ≤ n then ⟨negative, ds ++ List.replicate (n - ds.length) '0', ['0'], none⟩
      else ⟨negative, ds.take n, ds.drop n, none⟩
  else ⟨negative, ds.take 1, ds.drop 1, some (decide (e < 0), Decimal.chars e.natAbs)⟩

namespace Layout

variable {negative : Bool} {ds : List Char} {e : Int}

theorem pointChars_of_ne {f : List Char} (h : f ≠ []) : Numeral.pointChars f = '.' :: f := by
  cases f with
  | nil => exact absurd rfl h
  | cons d ds => rfl

theorem negative_numeral (l : Layout) : (l.numeral negative ds e).negative = negative := by
  rw [numeral]
  dsimp only
  split_ifs <;> rfl

/-- The text of digits laid out. -/
theorem unsignedChars_numeral (hne : ds ≠ []) :
    (standard.numeral negative ds e).unsignedChars = standard.write ds e := by
  rw [numeral, write]
  dsimp only
  by_cases hplain : standard.least ≤ e ∧ e ≤ standard.greatest
  · rw [if_pos hplain, if_pos hplain]
    split_ifs with hneg hlen
    · rw [Numeral.unsignedChars, pointChars_of_ne (by simp [hne])]
      simp [Numeral.exponentChars]
    · rw [Numeral.unsignedChars]
      simp [Numeral.pointChars, Numeral.exponentChars, standard]
    · rw [Numeral.unsignedChars, pointChars_of_ne (by simp; omega)]
      simp [Numeral.exponentChars]
  · rw [if_neg hplain, if_neg hplain, Numeral.unsignedChars]
    obtain ⟨d, ds, rfl⟩ := List.exists_cons_of_ne_nil hne
    cases ds with
    | nil =>
        by_cases hneg : e < 0 <;>
          simp [Numeral.pointChars, Numeral.exponentChars, standard, hneg]
    | cons d' ds =>
        by_cases hneg : e < 0 <;>
          simp [Numeral.pointChars, Numeral.exponentChars, standard, hneg]

/-- Digits are laid out as a proper numeral, if a zero in front is not written out. -/
theorem proper_numeral (hne : ds ≠ []) (hds : ∀ c ∈ ds, isDigit c = true)
    (hzero : ∀ t, ds = '0' :: t → standard.greatest < e) :
    (standard.numeral negative ds e).Proper := by
  rw [numeral]
  dsimp only
  have hnone : ∀ (minus : Bool) (es : List Char), none = some (minus, es) →
      es ≠ [] ∧ ∀ c ∈ es, isDigit c = true := fun _ _ h => nomatch h
  have hzeros : ∀ k, ∀ c ∈ List.replicate k '0', isDigit c = true := by
    intro k c hc
    obtain rfl := List.eq_of_mem_replicate hc
    decide
  have htake : ∀ n, ∀ c ∈ ds.take n, isDigit c = true := fun n c hc =>
    hds c (List.mem_of_mem_take hc)
  have hdrop : ∀ n, ∀ c ∈ ds.drop n, isDigit c = true := fun n c hc =>
    hds c (List.mem_of_mem_drop hc)
  obtain ⟨d, ds, rfl⟩ := List.exists_cons_of_ne_nil hne
  -- what is written out does not begin with a zero
  have hfirst : standard.least ≤ e ∧ e ≤ standard.greatest → d ≠ '0' := by
    rintro hplain rfl
    exact absurd (hzero ds rfl) (Int.not_lt.mpr hplain.2)
  split_ifs with hplain hneg hlen
  · exact ⟨by simp, by simp; decide, by simp,
      fun c hc => (List.mem_append.mp hc).elim (hzeros _ c) (hds c), hnone⟩
  · exact ⟨by simp, fun c hc => (List.mem_append.mp hc).elim (hds c) (hzeros _ c),
      fun c t h => hfirst hplain (List.cons.inj h).1, by simp; decide, hnone⟩
  · exact ⟨by simp, htake _, fun c t h => hfirst hplain (List.cons.inj h).1, hdrop _, hnone⟩
  · refine ⟨by simp, htake 1, fun c t h => List.cons_ne_nil c t (List.cons.inj h).2.symm,
      hdrop 1, ?_⟩
    rintro _ _ ⟨⟩
    exact ⟨chars_ne_nil _, fun c hc => isDigit_of_mem_chars hc⟩

/-! ### What digits laid out denote -/

/-- The digits are the numeral's, but for zeros behind them that its power of ten makes up for.
With these there are seventeen digits at most, and the last of them stands behind the point. -/
theorem parts_numeral (negative : Bool) (e : Int) (hne : ds ≠ []) : ∃ k : Nat,
    (standard.numeral negative ds e).significand = Nat.ofDigitChars 10 ds 0 * 10 ^ k ∧
    (standard.numeral negative ds e).exponentValue -
      (standard.numeral negative ds e).fraction.length = e - ds.length + 1 - k ∧
    (k = 0 ∨ ds.length + k ≤ 17 ∧ e - ds.length + 1 - k < 0) := by
  have hlen : 0 < ds.length := List.length_pos_iff.mpr hne
  rw [numeral]
  dsimp only
  split_ifs with hplain hneg hfew
  · refine ⟨0, ?_, ?_, .inl rfl⟩
    · rw [Numeral.significand, List.singleton_append, Nat.ofDigitChars_cons,
        Nat.ofDigitChars_append, Nat.ofDigitChars_replicate_zero]
      simp
    · simp only [Numeral.exponentValue, List.length_append, List.length_replicate]
      omega
  · refine ⟨e.toNat + 1 - ds.length + 1, ?_, ?_, .inr ?_⟩
    · rw [Numeral.significand, Nat.ofDigitChars_append, Nat.ofDigitChars_append,
        Nat.ofDigitChars_replicate_zero, Nat.ofDigitChars_cons, Nat.ofDigitChars_nil]
      simp
      ring
    · simp only [Numeral.exponentValue, List.length_singleton]
      omega
    · have := hplain.2
      simp only [standard] at this
      exact ⟨by omega, by omega⟩
  · refine ⟨0, ?_, ?_, .inl rfl⟩
    · rw [Numeral.significand, List.take_append_drop, pow_zero, mul_one]
    · simp only [Numeral.exponentValue, List.length_drop]
      omega
  · refine ⟨0, ?_, ?_, .inl rfl⟩
    · rw [Numeral.significand, List.take_append_drop, pow_zero, mul_one]
    · simp only [Numeral.exponentValue, ofDigitChars_chars, List.length_drop, decide_eq_true_eq]
      split <;> omega

/-- What digits laid out denote. -/
theorem decimal_numeral (hne : ds ≠ []) : (standard.numeral negative ds e).decimal =
    (if negative then -1 else 1) *
      (Nat.ofDigitChars 10 ds 0 * (10 : ℚ) ^ (e - ds.length + 1)) := by
  obtain ⟨k, hsig, hexp, -⟩ := parts_numeral negative e hne
  rw [Numeral.decimal, negative_numeral, hsig, hexp, mul_assoc]
  congr 1
  rw [Nat.cast_mul, mul_assoc, Nat.cast_pow, Nat.cast_ofNat, ← zpow_natCast,
    ← zpow_add₀ (by norm_num), add_sub_cancel]

theorem exponent_numeral {es : List Char}
    (h : (standard.numeral negative ds e).exponent = some (false, es)) :
    es = Decimal.chars e.natAbs ∧ 0 ≤ e := by
  rw [numeral] at h
  dsimp only at h
  split_ifs at h with hplain
  · obtain ⟨hsign, rfl⟩ := Prod.mk.inj (Option.some.inj h)
    exact ⟨rfl, by simpa using hsign⟩

end Layout

/-! ### In range -/

namespace Numeral

/-- Digits that make up a word are read to the end. -/
theorem absorb_parts {n : Numeral} (h : n.significand < wordBound) : ∃ w,
    absorb wordBound 0 n.whole = (w, []) ∧ absorb wordBound w n.fraction = (n.significand, []) := by
  rw [significand, Nat.ofDigitChars_append] at h
  refine ⟨_, absorb_of_lt ((le_ofDigitChars _ n.fraction).trans_lt h), ?_⟩
  rw [absorb_of_lt h, significand, Nat.ofDigitChars_append]

theorem clamp_of_neg {x : Int} (h : x < 0) : clamp x < 0 := by
  rw [clamp, exponentBound]
  split_ifs <;> omega

theorem clamp_of_lt {x : Int} (h0 : 0 ≤ x) (h : x < 309) : clamp x = x := by
  rw [clamp, exponentBound]
  split_ifs <;> omega

/-- **A numeral in range is read**: its digits make up a word, and they are scaled to a finite
double unless the power of ten is negative. -/
theorem exists_number? {n : Numeral} (hsig : n.significand < wordBound)
    (hdigits : ∀ ds, n.exponent = some (false, ds) → Nat.ofDigitChars 10 ds 0 < exponentBound)
    (hexp : n.exponentValue - n.fraction.length < 309)
    (hscale : 0 ≤ n.exponentValue - n.fraction.length →
      ∃ u, scale (nearest n.significand 1) (n.exponentValue - n.fraction.length) = some u) :
    ∃ v, n.number? = .ok v := by
  obtain ⟨w, hwhole, hfraction⟩ := absorb_parts hsig
  rw [number?, hwhole]
  dsimp only
  by_cases hplain : ((([] : List Char).isEmpty && n.fraction.isEmpty && n.exponent.isNone) = true)
  · rw [if_pos hplain]
    split_ifs <;> exact ⟨_, rfl⟩
  rw [if_neg hplain, hfraction]
  dsimp only
  have hpoint : ((([] : List Char).length : Nat) : Int) -
      (n.fraction.length - ([] : List Char).length : Nat) = -n.fraction.length := by simp
  rw [hpoint]
  have hscaled : ∀ x : Int, x < 0 ∨ x = n.exponentValue - n.fraction.length →
      ∃ u, scale (nearest n.significand 1) x = some u := by
    intro x hx
    rcases lt_or_ge x 0 with hneg | hnonneg
    · exact exists_scale_of_neg _ hneg
    · obtain rfl := hx.resolve_left (by omega)
      exact hscale hnonneg
  cases hx : n.exponent with
  | none =>
      obtain ⟨u, hu⟩ := hscaled (-n.fraction.length) (.inr (by rw [exponentValue, hx]; simp))
      exact ⟨_, by rw [hu]⟩
  | some x =>
      obtain ⟨minus, ds⟩ := x
      dsimp only
      have hval : n.exponentValue = if minus then -(Nat.ofDigitChars 10 ds 0 : Int)
          else Nat.ofDigitChars 10 ds 0 := by rw [exponentValue, hx]
      cases hab : absorb exponentBound 0 ds with
      | mk e left =>
          cases left with
          | nil =>
              obtain rfl := eq_ofDigitChars_of_absorb hab
              have hplaces : (if minus then -(n.fraction.length : Int) - Nat.ofDigitChars 10 ds 0
                  else -n.fraction.length + Nat.ofDigitChars 10 ds 0) =
                  n.exponentValue - n.fraction.length := by
                rw [hval]
                split_ifs <;> omega
              obtain ⟨u, hu⟩ := hscaled (clamp (n.exponentValue - n.fraction.length)) (by
                rcases lt_or_ge (n.exponentValue - n.fraction.length) 0 with hneg | hnonneg
                · exact .inl (clamp_of_neg hneg)
                · exact .inr (clamp_of_lt hnonneg hexp))
              dsimp only
              rw [hplaces, hu]
              exact ⟨_, rfl⟩
          | cons c more =>
              -- only an exponent with a minus may be out of range
              cases minus with
              | true => exact ⟨.double ⟨n.negative, 0⟩, by simp⟩
              | false =>
                  rw [absorb_of_lt (hdigits ds hx)] at hab
                  cases (Prod.mk.inj hab).2

end Numeral

/-- Seventeen digits that are scaled to a finite double are laid out as a numeral in range. -/
theorem Layout.exists_number? {negative : Bool} {f : Nat} {x : Int} (hf : f ≤ 10 ^ 17)
    (hx : x < 309) (hscale : 0 ≤ x → ∃ u, Numeral.scale (nearest f 1) x = some u) :
    ∃ v, (standard.numeral negative (Decimal.chars f)
      (x + (Decimal.chars f).length - 1)).number? = .ok v := by
  have hlen : (Decimal.chars f).length ≤ 18 :=
    (Nat.length_toDigits_le_iff (by decide) (by decide)).mpr (hf.trans_lt (by decide))
  have hlt := lt_pow_length_chars f
  obtain ⟨k, hsig, hplaces, hk⟩ := parts_numeral negative (x + (Decimal.chars f).length - 1)
    (chars_ne_nil f)
  rw [ofDigitChars_chars] at hsig
  refine Numeral.exists_number? ?_ ?_ (by omega) ?_
  · rw [hsig]
    rcases hk with rfl | ⟨hk, -⟩
    · rw [pow_zero, mul_one]
      exact hf.trans_lt (by decide)
    · calc f * 10 ^ k < 10 ^ (Decimal.chars f).length * 10 ^ k :=
            Nat.mul_lt_mul_of_pos_right hlt (Nat.pow_pos (by decide))
        _ = 10 ^ ((Decimal.chars f).length + k) := (Nat.pow_add _ _ _).symm
        _ ≤ 10 ^ 17 := Nat.pow_le_pow_right (by decide) hk
        _ < Numeral.wordBound := by decide
  · intro ds hds
    obtain ⟨rfl, hnonneg⟩ := exponent_numeral hds
    rw [ofDigitChars_chars, Numeral.exponentBound]
    omega
  · intro hnonneg
    obtain rfl := hk.resolve_right (fun h => absurd h.2 (by omega))
    rw [hplaces, hsig, pow_zero, mul_one]
    have hsame :
        x + (Decimal.chars f).length - 1 - (Decimal.chars f).length + 1 - (0 : Nat) = x := by
      omega
    rw [hsame]
    exact hscale (by omega)

/-! ### Numbers -/

namespace Number

/-- A number that a numeral can be read as: a whole number that fits its word, or a finite
double. -/
def Fits : Number → Prop
  | .int n    => FitsWord n
  | .double d => Finite d.units

/-- The numeral that a number is written as. -/
def numeral : Number → Numeral
  | .int n    => numeralOf n
  | .double d =>
    if d.units = 0 then ⟨d.negative, ['0'], ['0'], none⟩
    else
      let s := Shortest.ofUnits d.units
      let ds := Decimal.chars s.digits
      Layout.standard.numeral d.negative ds (s.exponent + ds.length - 1)

/-- The numeral of a number is how the number is written. -/
theorem chars_numeral (v : Number) : v.numeral.chars = v.chars := by
  cases v with
  | int n => exact chars_numeralOf n
  | double d =>
      rw [numeral, chars, Binary64.chars]
      dsimp only
      split
      · rfl
      · rw [Numeral.chars, Layout.negative_numeral, Layout.unsignedChars_numeral (chars_ne_nil _)]

/-- The numeral of a number is proper. -/
theorem proper_numeral (v : Number) : v.numeral.Proper := by
  cases v with
  | int n => exact proper_numeralOf n
  | double d =>
      rw [numeral]
      dsimp only
      split
      next => exact ⟨by simp, by simp; decide, by simp, by simp; decide, fun _ _ h => nomatch h⟩
      next hzero =>
        refine Layout.proper_numeral (chars_ne_nil _) (fun c hc => isDigit_of_mem_chars hc) ?_
        intro t ht
        rcases Shortest.ofUnits_spec (Nat.pos_of_ne_zero hzero) with hnone | ⟨hpos, -, -⟩
        · rw [hnone]
          decide
        · exact absurd ht (chars_ne_zero_cons hpos t)

theorem decimal_numeralOf (n : Int) : (numeralOf n).decimal = n := by
  have hdecimal : (numeralOf n).decimal = (if n < 0 then -1 else 1) * (n.natAbs : ℚ) := by
    rw [Numeral.decimal, Numeral.significand, Numeral.exponentValue, numeralOf]
    simp [ofDigitChars_chars]
  rw [hdecimal, Nat.cast_natAbs]
  split_ifs with hneg
  · rw [abs_of_neg hneg]
    push_cast
    ring
  · rw [abs_of_nonneg (by omega), one_mul]

/-- The numeral of a number denotes the number. -/
theorem decimal_numeral (v : Number) : v.numeral.decimal = v.decimal := by
  cases v with
  | int n => exact decimal_numeralOf n
  | double d =>
      rw [numeral, decimal]
      dsimp only
      split
      next => simp [Numeral.decimal, Numeral.significand, Nat.ofDigitChars]
      next =>
        rw [Layout.decimal_numeral (chars_ne_nil _), ofDigitChars_chars, Decimal.value]
        congr 3
        omega

/-- **What a number is written as is read again.** -/
theorem exists_number? {v : Number} (h : v.Fits) : ∃ w, v.numeral.number? = .ok w := by
  cases v with
  | int n => exact ⟨.int n, number?_numeralOf h⟩
  | double d =>
      rw [numeral]
      dsimp only
      split
      next =>
        exact Numeral.exists_number? (by decide : 0 < Numeral.wordBound) (fun _ h => nomatch h)
          (by decide : (0 : Int) - 1 < 309) fun h => absurd h (by decide : ¬ (0 : Int) ≤ 0 - 1)
      next hzero =>
        have hpos := Nat.pos_of_ne_zero hzero
        obtain ⟨hexp, hscale⟩ := Shortest.exists_scale_ofUnits hpos h
        refine Layout.exists_number? ?_ hexp fun _ => hscale
        rcases Shortest.ofUnits_spec hpos with hnone | ⟨-, hle, -⟩
        · rw [hnone]
          decide
        · exact hle

/-- What a numeral is read as fits. -/
theorem fits_of_number? {n : Numeral} {v : Number} (h : n.number? = .ok v) : v.Fits := by
  cases v with
  | int m => exact fitsWord_of_number? h
  | double d => exact Numeral.finite_of_number? h

end Number

end LintGate.Json
