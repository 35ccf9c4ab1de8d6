import LintGate.Proofs.Json.Numerals

/-!
# JSON — what rounding to a double gives

Rounding a quotient keeps the order of quotients (`Binary64.nearest_mono`), and a result below
infinity is a finite double: at most 53 bits, scaled by a power of two no greater than that of the
greatest one (`Binary64.finite_nearest`).  So the doubles that numerals are read as are finite
(`finite_of_number?`).
-/

namespace LintGate.Json

namespace Binary64

/-! ### Rounding to a whole number -/

/-- A quotient is not rounded below its whole part. -/
theorem le_roundDiv (n d : Nat) : n / d ≤ roundDiv n d := by
  unfold roundDiv
  dsimp only
  split_ifs <;> omega

/-- A quotient is rounded up by one at most. -/
theorem roundDiv_le_succ (n d : Nat) : roundDiv n d ≤ n / d + 1 := by
  unfold roundDiv
  dsimp only
  split_ifs <;> omega

/-- A quotient below a whole number is rounded to that number at most. -/
theorem roundDiv_le_of_lt {n d m : Nat} (hd : 0 < d) (h : n < m * d) : roundDiv n d ≤ m := by
  have hdiv : n / d < m := (Nat.div_lt_iff_lt_mul hd).mpr h
  have := roundDiv_le_succ n d
  omega

theorem div_mono {n d n' d' : Nat} (hd : 0 < d) (hd' : 0 < d') (h : n * d' ≤ n' * d) :
    n / d ≤ n' / d' := by
  rw [Nat.le_div_iff_mul_le hd']
  refine Nat.le_of_mul_le_mul_right ?_ hd
  calc n / d * d' * d = n / d * d * d' := by ring
    _ ≤ n * d' := Nat.mul_le_mul_right _ (Nat.div_mul_le_self n d)
    _ ≤ n' * d := h

/-- A greater quotient is not rounded to less. -/
theorem roundDiv_mono {n d n' d' : Nat} (hd : 0 < d) (hd' : 0 < d') (h : n * d' ≤ n' * d) :
    roundDiv n d ≤ roundDiv n' d' := by
  rcases (div_mono hd hd' h).lt_or_eq with hlt | heq
  · exact (roundDiv_le_succ n d).trans (hlt.trans_le (le_roundDiv n' d'))
  · -- with the whole parts equal, the parts left over are in the same order
    have hleft : n % d * d' ≤ n' % d' * d := by
      have hn := Nat.div_add_mod n d
      have hn' := Nat.div_add_mod n' d'
      rw [← hn, ← hn', ← heq] at h
      nlinarith
    have hup : d < 2 * (n % d) → d' < 2 * (n' % d') := by
      intro hgt
      refine Nat.lt_of_mul_lt_mul_left (a := d) ?_
      nlinarith
    have hdown : 2 * (n' % d') < d' → 2 * (n % d) < d := by
      intro hlt
      refine Nat.lt_of_mul_lt_mul_right (a := d') ?_
      nlinarith
    unfold roundDiv
    dsimp only
    rw [heq]
    split_ifs <;> omega

/-! ### Spacing -/

theorem spacing_eq (q : Nat) : spacing q = 2 ^ (q.log2 - 52) :=
  Nat.one_shiftLeft _

theorem spacing_pos (q : Nat) : 0 < spacing q := by
  rw [spacing_eq]
  exact Nat.two_pow_pos _

/-- Fifty-three bits of spacings reach beyond the number. -/
theorem lt_mul_spacing (q : Nat) : q < 2 ^ 53 * spacing q := by
  rw [spacing_eq, ← Nat.pow_add]
  exact Nat.lt_log2_self.trans_le (Nat.pow_le_pow_right (by decide) (by omega))

/-- A number that does not have unit spacing has fifty-three bits of it. -/
theorem mul_spacing_le {q : Nat} (h : 52 < q.log2) : 2 ^ 52 * spacing q ≤ q := by
  have hne : q ≠ 0 := by
    rintro rfl
    rw [Nat.log2_zero] at h
    omega
  rw [spacing_eq, ← Nat.pow_add, Nat.add_sub_of_le (by omega)]
  exact Nat.log2_self_le hne

/-! ### The nearest double -/

theorem one_eq : one = 2 ^ 1074 := Nat.one_shiftLeft 1074

theorem units_one_pos : 0 < one := by decide

/-- The nearest number is a multiple of the spacing where the quotient lies. -/
theorem nearest_eq (n d : Nat) : nearest n d =
    roundDiv (n * one) (d * spacing (n * one / d)) * spacing (n * one / d) := rfl

/-- A quotient is rounded to fifty-three bits of its spacing at most. -/
theorem nearest_le (n : Nat) {d : Nat} (hd : 0 < d) :
    roundDiv (n * one) (d * spacing (n * one / d)) ≤ 2 ^ 53 := by
  refine roundDiv_le_of_lt (Nat.mul_pos hd (spacing_pos _)) ?_
  calc n * one < 2 ^ 53 * spacing (n * one / d) * d :=
        (Nat.div_lt_iff_lt_mul hd).mp (lt_mul_spacing _)
    _ = 2 ^ 53 * (d * spacing (n * one / d)) := by ring

theorem le_nearest {n d : Nat} (h : 52 < (n * one / d).log2) :
    2 ^ 52 * spacing (n * one / d) ≤ nearest n d := by
  rw [nearest_eq]
  refine Nat.mul_le_mul_right _ ((le_roundDiv _ _).trans' ?_)
  rw [← Nat.div_div_eq_div_mul, Nat.le_div_iff_mul_le (spacing_pos _)]
  exact mul_spacing_le h

/-- **Rounding keeps the order of quotients.** -/
theorem nearest_mono {n d n' d' : Nat} (hd : 0 < d) (hd' : 0 < d') (h : n * d' ≤ n' * d) :
    nearest n d ≤ nearest n' d' := by
  have hone : n * one * d' ≤ n' * one * d := by
    calc n * one * d' = n * d' * one := by ring
      _ ≤ n' * d * one := Nat.mul_le_mul_right _ h
      _ = n' * one * d := by ring
  have hlog : (n * one / d).log2 ≤ (n' * one / d').log2 := by
    rw [Nat.log2_eq_log_two, Nat.log2_eq_log_two]
    exact Nat.log_mono_right (div_mono hd hd' hone)
  by_cases hs : spacing (n * one / d) = spacing (n' * one / d')
  · rw [nearest_eq, nearest_eq, hs]
    have hpos := spacing_pos (n' * one / d')
    refine Nat.mul_le_mul_right _ (roundDiv_mono (Nat.mul_pos hd hpos) (Nat.mul_pos hd' hpos) ?_)
    calc n * one * (d' * spacing (n' * one / d'))
        = n * one * d' * spacing (n' * one / d') := by ring
      _ ≤ n' * one * d * spacing (n' * one / d') := Nat.mul_le_mul_right _ hone
      _ = n' * one * (d * spacing (n' * one / d')) := by ring
  · -- wider spaced, the second begins where the first can end
    rw [spacing_eq, spacing_eq] at hs
    have hwider : (n * one / d).log2 - 52 + 1 ≤ (n' * one / d').log2 - 52 := by
      have : (n * one / d).log2 - 52 ≠ (n' * one / d').log2 - 52 := fun e => hs (by rw [e])
      omega
    calc nearest n d ≤ 2 ^ 53 * spacing (n * one / d) := Nat.mul_le_mul_right _ (nearest_le n hd)
      _ = 2 ^ 52 * 2 ^ ((n * one / d).log2 - 52 + 1) := by rw [spacing_eq]; ring
      _ ≤ 2 ^ 52 * spacing (n' * one / d') := by
        rw [spacing_eq]
        exact Nat.mul_le_mul_left _ (Nat.pow_le_pow_right (by decide) hwider)
      _ ≤ nearest n' d' := le_nearest (by omega)

theorem nearest_mono_of_le {n n' : Nat} (h : n ≤ n') : nearest n 1 ≤ nearest n' 1 :=
  nearest_mono Nat.one_pos Nat.one_pos (Nat.mul_le_mul_right 1 h)

theorem power_mono {e e' : Nat} (h : e ≤ e') : power e ≤ power e' :=
  nearest_mono_of_le (Nat.pow_le_pow_right (by decide) h)

theorem mul_mono {a a' b b' : Nat} (ha : a ≤ a') (hb : b ≤ b') : mul a b ≤ mul a' b' := by
  have hone : 0 < one * one := Nat.mul_pos units_one_pos units_one_pos
  exact nearest_mono hone hone (Nat.mul_le_mul_right _ (Nat.mul_le_mul ha hb))

/-! ### Finite doubles -/

/-- The greatest power of two that a finite double is scaled by. -/
@[irreducible]
def topExponent : Nat := 2045

/-- The magnitude of a finite double: fifty-three bits, scaled by a power of two. -/
def Finite (u : Nat) : Prop := ∃ k j, k < 2 ^ 53 ∧ j ≤ topExponent ∧ u = k * 2 ^ j

/-- The units of the greatest finite double. -/
def greatest : Nat := (2 ^ 53 - 1) * 2 ^ topExponent

theorem infinity_eq : infinity = 2 ^ 53 * 2 ^ topExponent := by
  simp only [infinity, topExponent, Nat.one_shiftLeft, ← Nat.pow_add, Nat.reduceAdd]

theorem finite_zero : Finite 0 := ⟨0, 0, Nat.two_pow_pos _, Nat.zero_le _, rfl⟩

/-- A short enough multiple of a power of two below infinity is a finite number. -/
theorem finite_of_lt {r j : Nat} (hr : r ≤ 2 ^ 53) (h : r * 2 ^ j < infinity) :
    Finite (r * 2 ^ j) := by
  rw [infinity_eq] at h
  rcases le_or_gt j topExponent with hj | hj
  · rcases hr.lt_or_eq with hlt | rfl
    · exact ⟨r, j, hlt, hj, rfl⟩
    · -- a fifty-fourth bit goes to the power of two
      have hjlt : j < topExponent :=
        (Nat.pow_lt_pow_iff_right (by decide)).mp (Nat.lt_of_mul_lt_mul_left h)
      exact ⟨2 ^ 52, j + 1, by decide, hjlt, by ring⟩
  · have hsplit : r * 2 ^ j = r * 2 ^ (j - topExponent) * 2 ^ topExponent := by
      rw [Nat.mul_assoc, ← Nat.pow_add, Nat.sub_add_cancel hj.le]
    rw [hsplit] at h ⊢
    exact ⟨_, topExponent, Nat.lt_of_mul_lt_mul_right h, Nat.le_refl _, rfl⟩

/-- **What is rounded is finite or beyond the finite doubles.** -/
theorem finite_nearest {n d : Nat} (hd : 0 < d) (h : nearest n d < infinity) :
    Finite (nearest n d) := by
  rw [nearest_eq, spacing_eq] at h ⊢
  refine finite_of_lt ?_ h
  rw [← spacing_eq]
  exact nearest_le n hd

/-- Next to the greatest finite double there is none within its spacing. -/
theorem Finite.eq_greatest_or {u : Nat} (h : Finite u) :
    u = greatest ∨ u + 2 ^ topExponent ≤ greatest := by
  obtain ⟨k, j, hk, hj, rfl⟩ := h
  rcases Nat.lt_or_ge k (2 ^ 53 - 1) with hlt | hge
  · right
    calc k * 2 ^ j + 2 ^ topExponent ≤ k * 2 ^ topExponent + 2 ^ topExponent :=
          Nat.add_le_add_right (Nat.mul_le_mul_left _ (Nat.pow_le_pow_right (by decide) hj)) _
      _ = (k + 1) * 2 ^ topExponent := by ring
      _ ≤ greatest := Nat.mul_le_mul_right _ hlt
  · obtain rfl : k = 2 ^ 53 - 1 := by omega
    rcases hj.lt_or_eq with hlt | rfl
    · right
      have hpow : 2 ^ (j + 1) ≤ 2 ^ topExponent := Nat.pow_le_pow_right (by decide) hlt
      calc (2 ^ 53 - 1) * 2 ^ j + 2 ^ topExponent ≤ 2 ^ 52 * 2 ^ (j + 1) + 2 ^ topExponent := by
            rw [Nat.pow_succ]; omega
        _ ≤ 2 ^ 52 * 2 ^ topExponent + 2 ^ topExponent :=
            Nat.add_le_add_right (Nat.mul_le_mul_left _ hpow) _
        _ ≤ greatest := by rw [greatest]; omega
    · exact .inl rfl

end Binary64

/-! ### Numerals read as doubles -/

namespace Numeral

open Binary64

/-- The units of the first whole number beyond the significands. -/
def significandBound : Nat := nearest wordBound 1

/-- A significand that fits a word rounds to one within the bound. -/
theorem nearest_le_bound {n : Nat} (h : n < wordBound) : nearest n 1 ≤ significandBound :=
  nearest_mono_of_le h.le

theorem significandBound_lt : significandBound < infinity := by decide +kernel

theorem one_le_power (e : Nat) : one ≤ power e := by
  have hone : power 0 = one := by decide +kernel
  exact hone.symm.trans_le (power_mono (Nat.zero_le e))

theorem power_pos (e : Nat) : 0 < power e :=
  Nat.lt_of_lt_of_le units_one_pos (one_le_power e)

/-- A power of ten divides without leaving the bound. -/
theorem div_power_le {f : Nat} (hf : f ≤ significandBound) (e : Nat) :
    div f (power e) ≤ significandBound := by
  have hone : nearest significandBound one = significandBound := by decide +kernel
  rw [← hone]
  exact nearest_mono (power_pos e) units_one_pos (Nat.mul_le_mul hf (one_le_power e))

/-- A bounded significand divided by a power of ten is finite. -/
theorem finite_div_power {f : Nat} (hf : f ≤ significandBound) (e : Nat) :
    Finite (div f (power e)) :=
  finite_nearest (power_pos e) (Nat.lt_of_le_of_lt (div_power_le hf e) significandBound_lt)

/-- What a significand is scaled to is finite. -/
theorem finite_of_scale {f u : Nat} {x : Int} (hf : f ≤ significandBound)
    (h : scale f x = some u) : Finite u := by
  -- by the recursion: one multiplication, one division, or a division by 10³⁰⁸ and on
  induction f, x using scale.induct with
  | case1 f x hx p hp =>
      rw [scale, if_pos hx] at h
      dsimp only at h
      rw [if_pos hp] at h
      cases h
      exact finite_nearest (by decide) hp
  | case2 f x hx p hp =>
      rw [scale, if_pos hx] at h
      dsimp only at h
      rw [if_neg hp] at h
      cases h
  | case3 f x hx hneg =>
      rw [scale, if_neg hx, if_pos hneg] at h
      cases h
      exact finite_div_power hf _
  | case4 x hx hneg =>
      rw [scale, if_neg hx, if_neg hneg, if_pos rfl] at h
      cases h
      exact finite_zero
  | case5 f x hx hneg hzero hpos =>
      rw [scale, if_neg hx, if_neg hneg, if_neg hzero, if_pos hpos] at h
      cases h
  | case6 f x hx hneg hzero hpos ih =>
      rw [scale, if_neg hx, if_neg hneg, if_neg hzero, if_neg hpos] at h
      exact ih (div_power_le hf 308) h

/-- A significand divided by powers of ten is always finite. -/
theorem exists_scale_of_neg (f : Nat) {x : Int} (hx : x < 0) : ∃ u, scale f x = some u := by
  induction f, x using scale.induct with
  | case1 f x h | case2 f x h => omega
  | case3 f x h hneg => exact ⟨_, by rw [scale, if_neg h, if_pos hneg]⟩
  | case4 x h hneg => exact ⟨0, by rw [scale, if_neg h, if_neg hneg, if_pos rfl]⟩
  | case5 f x h hneg hzero hpos => omega
  | case6 f x h hneg hzero hpos ih =>
      obtain ⟨u, hu⟩ := ih (by omega)
      exact ⟨u, by rw [scale, if_neg h, if_neg hneg, if_neg hzero, if_neg hpos, hu]⟩

/-- **A numeral is read as a finite double**, if it is read as a double. -/
theorem finite_of_number? {n : Numeral} {x : Binary64} (h : n.number? = .ok (.double x)) :
    Finite x.units := by
  have hw := absorb_lt (by decide : 0 < wordBound) n.whole
  rw [number?] at h
  cases hab : absorb wordBound 0 n.whole with
  | mk w left =>
      rw [hab] at h hw
      have hsig := nearest_le_bound (absorb_lt hw n.fraction)
      by_cases hwhole : (left.isEmpty && n.fraction.isEmpty && n.exponent.isNone) = true
      · have h := (if_pos hwhole).symm.trans h
        split_ifs at h
        · cases h
        · cases h
          exact finite_nearest Nat.one_pos ((nearest_le_bound hw).trans_lt significandBound_lt)
        · cases h
      · have h := (if_neg hwhole).symm.trans h
        dsimp only at h
        split at h
        · split at h
          next u hu =>
            cases h
            exact finite_of_scale hsig hu
          · cases h
        · split at h
          · split at h
            next u hu =>
              cases h
              exact finite_of_scale hsig hu
            · cases h
          · split at h
            · cases h
            · cases h
              exact finite_zero

end Numeral

end LintGate.Json
