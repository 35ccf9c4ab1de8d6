import LintGate.Json.Shortest
import LintGate.Proofs.Json.Rounding

/-!
# JSON — what the shortest decimal is

The decimal a double is written as has seventeen digits or fewer, and its value (`Decimal.value`)
is no greater than halfway to the next double (`Shortest.ofUnits_spec`).  Stripping zeros changes
the digits and not the value.
-/

namespace LintGate.Json

open Binary64

/-! ### Decimals -/

namespace Decimal

/-- The number a decimal denotes. -/
def value (d : Decimal) : ℚ := d.digits * (10 : ℚ) ^ d.exponent

/-- Zeros at the end can go without a change of value. -/
theorem stripZeros_value (fuel : Nat) (d : Decimal) : (d.stripZeros fuel).value = d.value := by
  induction fuel generalizing d with
  | zero => rfl
  | succ fuel ih =>
      rw [stripZeros]
      split
      next hzero =>
        have hdigits : d.digits = d.digits / 10 * 10 := by omega
        rw [ih, value, value, zpow_add_one₀ (by norm_num), mul_comm ((10 : ℚ) ^ _), ← mul_assoc]
        congr 1
        exact_mod_cast hdigits.symm
      · rfl

theorem stripZeros_digits_le (fuel : Nat) (d : Decimal) :
    (d.stripZeros fuel).digits ≤ d.digits := by
  induction fuel generalizing d with
  | zero => exact Nat.le_refl _
  | succ fuel ih =>
      rw [stripZeros]
      split
      · exact (ih _).trans (Nat.div_le_self _ _)
      · exact Nat.le_refl _

theorem stripZeros_digits_pos (fuel : Nat) {d : Decimal} (h : 0 < d.digits) :
    0 < (d.stripZeros fuel).digits := by
  induction fuel generalizing d with
  | zero => exact h
  | succ fuel ih =>
      rw [stripZeros]
      split
      · exact ih (by dsimp only; omega)
      · exact h

/-- The two parts of a power of ten whose exponent may be negative. -/
theorem zpow_mul_pow (p : Int) : (10 : ℚ) ^ p * 10 ^ (-p).toNat = 10 ^ p.toNat := by
  rw [← zpow_natCast, ← zpow_natCast, ← zpow_add₀ (by norm_num)]
  congr 1
  omega

end Decimal

namespace Shortest

/-! ### Digits found -/

theorem two_pow_eq : 2 ^ 1075 = 2 * one := by
  rw [one_eq, ← Nat.pow_succ']

/-- What holds of a number in an interval, whether or not the ends belong to it. -/
theorem Interval.le_of_holds {i : Interval} {n d : Nat} (h : i.holds n d = true) :
    i.low * d ≤ n ∧ n ≤ i.high * d := by
  rw [holds] at h
  split at h
  · exact of_decide_eq_true h
  · exact (of_decide_eq_true h).imp Nat.le_of_lt Nat.le_of_lt

/-- What is found on a grid has its exponent, is no more than a step above the center, and lies in
the interval. -/
theorem onGrid_spec {i : Interval} {p : Int} {d : Decimal} (h : onGrid i p = some d) :
    d.exponent = p ∧
    d.digits ≤ i.center * 10 ^ (-p).toNat / (10 ^ p.toNat * (2 * one)) + 1 ∧
    i.holds (d.digits * (10 ^ p.toNat * (2 * one))) (10 ^ (-p).toNat) = true := by
  unfold onGrid at h
  simp only [Nat.shiftLeft_eq, two_pow_eq, Nat.pow_eq] at h
  split at h
  next hlow =>
    cases h
    exact ⟨rfl, Nat.le_succ _, (Bool.and_eq_true_iff.mp hlow).1⟩
  · split at h
    next hhigh =>
      cases h
      exact ⟨rfl, Nat.le_refl _, hhigh⟩
    · cases h

/-- What the search finds it has found on some grid. -/
theorem exists_of_search {i : Interval} {lead : Int} {fuel digits : Nat} {d : Decimal}
    (h : search i lead fuel digits = some d) :
    ∃ k < digits + fuel, onGrid i (lead - (k : Int) + 1) = some d := by
  induction fuel generalizing digits with
  | zero => cases h
  | succ fuel ih =>
      rw [search] at h
      split at h
      next heq =>
        cases h
        exact ⟨digits, by omega, heq⟩
      · obtain ⟨k, hk, heq⟩ := ih h
        exact ⟨k, by omega, heq⟩

/-! ### Bounds -/

theorem lt_of_shiftRight {n m b : Nat} (h : n >>> m < b) : n < b * 2 ^ m := by
  rwa [Nat.shiftRight_eq_div_pow, Nat.div_lt_iff_lt_mul (Nat.two_pow_pos m)] at h

/-- The number of digits before the point of a scaled number. -/
theorem exists_length (u places n : Nat) : ∃ len : Nat,
    (Decimal.log10 ((u * Nat.pow 10 places) >>> n) : Int) = (len : Int) - 1 ∧
      u * 10 ^ places < 10 ^ len * 2 ^ n := by
  refine ⟨(Decimal.chars ((u * 10 ^ places) >>> n)).length, ?_,
    lt_of_shiftRight (lt_pow_length_chars _)⟩
  have hlen : 0 < (Decimal.chars ((u * 10 ^ places) >>> n)).length := Nat.length_toDigits_pos
  rw [Decimal.log10, Nat.pow_eq]
  omega

/-- The first digit's power of ten, as a bound on the double. -/
theorem lt_of_leading (u : Nat) : ∃ len places : Nat,
    leading u = (len : Int) - 1 - places ∧ u * 10 ^ places < 10 ^ len * one := by
  obtain ⟨len, hlog, hlt⟩ := exists_length u 342 1074
  rw [← one_eq] at hlt
  have hlead : leading u = (len : Int) - 1 - 342 := by rw [leading, hlog]
  exact ⟨len, 342, hlead, hlt⟩

/-- With `k` digits the whole part on the grid has `k` digits at most. -/
theorem grid_digits_lt {u k : Nat} {p : Int} (hp : p = leading u - (k : Int) + 1) :
    2 * u * 10 ^ (-p).toNat / (10 ^ p.toNat * (2 * one)) < 10 ^ k := by
  obtain ⟨len, places, hlead, hlt⟩ := lt_of_leading u
  rw [Nat.div_lt_iff_lt_mul (Nat.mul_pos (Nat.pow_pos (by decide)) (by decide))]
  refine Nat.lt_of_mul_lt_mul_right (a := 10 ^ places) ?_
  have hexp : len + (-p).toNat = k + p.toNat + places := by omega
  calc 2 * u * 10 ^ (-p).toNat * 10 ^ places = 2 * 10 ^ (-p).toNat * (u * 10 ^ places) := by ring
    _ < 2 * 10 ^ (-p).toNat * (10 ^ len * one) :=
      Nat.mul_lt_mul_of_pos_left hlt (Nat.mul_pos (by decide) (Nat.pow_pos (by decide)))
    _ = 2 * one * 10 ^ (len + (-p).toNat) := by ring
    _ = 10 ^ k * (10 ^ p.toNat * (2 * one)) * 10 ^ places := by
      rw [hexp]
      ring

/-- Less than the double itself lies between it and its lower neighbour. -/
theorem Interval.low_pos {u : Nat} (hu : 0 < u) : 0 < (Interval.ofUnits u).low := by
  have hs : spacing u ≤ u := by
    rw [spacing_eq]
    exact (Nat.pow_le_pow_right (by decide) (Nat.sub_le _ _)).trans (Nat.log2_self_le hu.ne')
  rw [Interval.ofUnits]
  dsimp only
  split_ifs <;> omega

/-- **The decimal of a double** but zero: a positive number of seventeen digits or ten to the
seventeenth, no greater than halfway to the next double.  The other decimal, which stands for none
found, is zero. -/
theorem ofUnits_spec {u : Nat} (hu : 0 < u) : ofUnits u = ⟨0, 17⟩ ∨
    0 < (ofUnits u).digits ∧ (ofUnits u).digits ≤ 10 ^ 17 ∧
      (ofUnits u).value * (2 * one : ℕ) ≤ (2 * u + spacing u : ℕ) := by
  rw [ofUnits]
  cases hsearch : search (Interval.ofUnits u) (leading u) 17 1 with
  | none => exact .inl rfl
  | some d =>
      right
      rw [Option.getD_some, Decimal.stripZeros_value]
      obtain ⟨k, hk, hgrid⟩ := exists_of_search hsearch
      obtain ⟨hexp, hdigits, hholds⟩ := onGrid_spec hgrid
      generalize hp : leading u - (k : Int) + 1 = p at hexp hdigits hholds
      obtain ⟨hlow, hhigh⟩ := Interval.le_of_holds hholds
      refine ⟨Decimal.stripZeros_digits_pos _ ?_, (Decimal.stripZeros_digits_le _ _).trans ?_, ?_⟩
      · have hpos := Nat.mul_pos (Interval.low_pos hu) (Nat.pow_pos (n := (-p).toNat)
          (by decide : 0 < 10))
        exact Nat.pos_of_mul_pos_right (hpos.trans_le hlow)
      · calc d.digits ≤ 10 ^ k := hdigits.trans (grid_digits_lt hp.symm)
          _ ≤ 10 ^ 17 := Nat.pow_le_pow_right (by decide) (by omega)
      · have hpow : (0 : ℚ) < 10 ^ (-p).toNat := by positivity
        refine le_of_mul_le_mul_right ?_ hpow
        have hhigh : d.digits * (10 ^ p.toNat * (2 * one)) ≤
            (2 * u + spacing u) * 10 ^ (-p).toNat := hhigh
        calc d.value * (2 * one : ℕ) * 10 ^ (-p).toNat
            = d.digits * ((10 : ℚ) ^ p * 10 ^ (-p).toNat) * (2 * one : ℕ) := by
              rw [Decimal.value, hexp]; ring
          _ = (d.digits * (10 ^ p.toNat * (2 * one)) : ℕ) := by
              rw [Decimal.zpow_mul_pow]; push_cast; ring
          _ ≤ ((2 * u + spacing u) * 10 ^ (-p).toNat : ℕ) := by exact_mod_cast hhigh
          _ = (2 * u + spacing u : ℕ) * 10 ^ (-p).toNat := by push_cast; ring

/-! ### Scaled back -/

/-- The whole part of the point halfway behind the second greatest finite double. -/
def halfway : Nat := (2 * (greatest - 2 ^ topExponent) + 2 ^ topExponent) / (2 * one)

/-- Seventeen digits stay finite up to 10²⁹¹. -/
theorem mul_power_lt_of_digits : mul (nearest (10 ^ 17) 1) (power 291) < infinity := by
  decide +kernel

/-- At the powers of ten from there on, the greatest decimal up to `halfway` is scaled to a finite
double. -/
theorem mul_power_lt_of_halfway : ∀ k < 17,
    mul (nearest (halfway / 10 ^ (292 + k)) 1) (power (292 + k)) < infinity := by
  decide +kernel

theorem mul_power_lt {f e : Nat} (hf : f ≤ 10 ^ 17) (he : e < 309) (h : f * 10 ^ e ≤ halfway) :
    mul (nearest f 1) (power e) < infinity := by
  rcases Nat.lt_or_ge e 292 with hlt | hge
  · exact Nat.lt_of_le_of_lt
      (mul_mono (nearest_mono_of_le hf) (power_mono (Nat.le_of_lt_succ hlt)))
      mul_power_lt_of_digits
  · obtain ⟨k, rfl⟩ := Nat.exists_eq_add_of_le hge
    have hdiv : f ≤ halfway / 10 ^ (292 + k) :=
      (Nat.le_div_iff_mul_le (Nat.pow_pos (by decide))).mpr h
    exact Nat.lt_of_le_of_lt (mul_mono (nearest_mono_of_le hdiv) (Nat.le_refl _))
      (mul_power_lt_of_halfway k (by omega))

/-- The greatest finite double is written with seventeen digits, and these are scaled back to it. -/
theorem ofUnits_greatest : ofUnits greatest = ⟨17976931348623157, 292⟩ ∧
    mul (nearest 17976931348623157 1) (power 292) < infinity := by
  decide +kernel

theorem scale_of_mul_lt {f e : Nat} (he : e < 309) (h : mul f (power e) < infinity) :
    ∃ v, Numeral.scale f e = some v := by
  refine ⟨mul f (power e), ?_⟩
  rw [Numeral.scale, if_pos (by omega)]
  exact if_pos h

theorem spacing_le_of_finite {u : Nat} (h : Finite u) : spacing u ≤ 2 ^ topExponent := by
  obtain ⟨k, j, hk, hj, rfl⟩ := h
  rw [spacing_eq]
  refine Nat.pow_le_pow_right (by decide) ?_
  by_cases hzero : k * 2 ^ j = 0
  · rw [hzero]
    exact Nat.zero_le _
  · have hlt : k * 2 ^ j < 2 ^ (53 + topExponent) := by
      rw [Nat.pow_add]
      exact Nat.mul_lt_mul_of_lt_of_le hk (Nat.pow_le_pow_right (by decide) hj)
        (Nat.two_pow_pos _)
    have := (Nat.log2_lt hzero).mpr hlt
    omega

/-- **The digits a finite double is written with are scaled back** to a finite double, and there is
no digit beyond 10³⁰⁸. -/
theorem exists_scale_ofUnits {u : Nat} (hu : 0 < u) (hf : Finite u) :
    (ofUnits u).exponent < 309 ∧
    ∃ v, Numeral.scale (nearest (ofUnits u).digits 1) (ofUnits u).exponent = some v := by
  rcases ofUnits_spec hu with hnone | ⟨hpos, hdigits, hvalue⟩
  · have hzero : 0 * 10 ^ 17 ≤ halfway := by rw [Nat.zero_mul]; exact Nat.zero_le _
    rw [hnone]
    exact ⟨by decide, scale_of_mul_lt (by decide)
      (mul_power_lt (Nat.zero_le _) (by decide) hzero)⟩
  rcases hf.eq_greatest_or with rfl | hle
  · obtain ⟨heq, hlt⟩ := ofUnits_greatest
    rw [heq]
    exact ⟨by decide, scale_of_mul_lt (by decide) hlt⟩
  · rcases lt_or_ge (ofUnits u).exponent 0 with hneg | hnonneg
    · exact ⟨by omega, Numeral.exists_scale_of_neg _ hneg⟩
    · obtain ⟨e, he⟩ := Int.eq_ofNat_of_zero_le hnonneg
      rw [Decimal.value, he, zpow_natCast] at hvalue
      have hnat : (ofUnits u).digits * 10 ^ e * (2 * one) ≤ 2 * u + spacing u := by
        exact_mod_cast hvalue
      have hspacing := spacing_le_of_finite hf
      have hhalf : (ofUnits u).digits * 10 ^ e ≤ halfway := by
        rw [halfway, Nat.le_div_iff_mul_le (by decide)]
        omega
      have hlt : e < 309 := by
        refine (Nat.pow_lt_pow_iff_right (by decide : 1 < 10)).mp ?_
        have hbound : halfway < 10 ^ 309 := by decide +kernel
        exact ((Nat.le_mul_of_pos_left _ hpos).trans hhalf).trans_lt hbound
      rw [he]
      exact ⟨by omega, scale_of_mul_lt hlt (mul_power_lt hdigits hlt hhalf)⟩

end Shortest

end LintGate.Json
