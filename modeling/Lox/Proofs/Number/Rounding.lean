import Mathlib
import Lox.Number.Decimal

/-!
# Rounding to the nearest number

The quotients that round to a finite number make up an interval, which reaches half way to the neighbours
on both sides. A power of two has a neighbour below it that is only half as far as the one above, unless it
is among the smallest numbers. The ends belong to the interval if the mantissa is even. `nearest` takes each
quotient of the interval to the number, the ones just below a power of two included, where it works with the
next smaller exponent.
-/

namespace Lox

/-- A power with an integer exponent, as a quotient of powers with natural ones. -/
theorem zpow_eq_div (b : ℚ) (z : Int) : b ^ z = b ^ z.toNat / b ^ (-z).toNat := by
  rcases le_total 0 z with above | below
  · lift z to ℕ using above
    simp
  · obtain ⟨k, rfl⟩ := Int.exists_eq_neg_ofNat below
    simp

namespace Binary64

/-- The value of a number. -/
def value (mantissa : Nat) (exponent : Int) : ℚ := mantissa * 2 ^ exponent

/-- The bit pattern of a number, by its exponent and mantissa. A hidden bit counts one in the exponent field. -/
def pattern (mantissa : Nat) (exponent : Int) : Nat :=
  (exponent - leastExponent).toNat * hiddenBit + mantissa

/-- Mantissa and exponent as a finite number has them. -/
structure Proper (mantissa : Nat) (exponent : Int) : Prop where
  below : mantissa < 2 * hiddenBit
  least : leastExponent ≤ exponent
  greatest : exponent ≤ 971
  normal : exponent = leastExponent ∨ hiddenBit ≤ mantissa

/-- How far the interval reaches below a number, in quarters of its mantissa's unit. -/
def reach (mantissa : Nat) (exponent : Int) : Nat :=
  if mantissa = hiddenBit ∧ exponent ≠ leastExponent then 1 else 2

/-- The quotient is in the interval around the number. All is measured in the mantissa's unit. -/
structure RoundsTo (quotient : ℚ) (mantissa : Nat) (exponent : Int) : Prop where
  low : 4 * mantissa ≤ 4 * (quotient / 2 ^ exponent) + reach mantissa exponent
  high : 4 * (quotient / 2 ^ exponent) ≤ 4 * mantissa + 2
  odd : mantissa % 2 = 1 → 4 * mantissa < 4 * (quotient / 2 ^ exponent) + reach mantissa exponent ∧
    4 * (quotient / 2 ^ exponent) < 4 * mantissa + 2

/-! ### Quotients -/

/-- What is within half a unit rounds to the natural there, a half only if that is even. -/
theorem roundQuotient_eq {n d m : Nat} (positive : 0 < d) (low : 2 * (m * d) ≤ 2 * n + d)
    (high : 2 * n ≤ 2 * (m * d) + d)
    (odd : m % 2 = 1 → 2 * (m * d) < 2 * n + d ∧ 2 * n < 2 * (m * d) + d) : roundQuotient n d = m := by
  have whole : d * (n / d) + n % d = n := Nat.div_add_mod n d
  have rest : n % d < d := Nat.mod_lt n positive
  have below : n / d ≤ m := by
    by_contra more
    have : (m + 1) * d ≤ n / d * d := Nat.mul_le_mul_right d (Nat.lt_of_not_le more)
    rw [Nat.add_mul, Nat.one_mul, Nat.mul_comm (n / d)] at this
    omega
  have above : m ≤ n / d + 1 := by
    by_contra less
    have : (n / d + 2) * d ≤ m * d := Nat.mul_le_mul_right d (Nat.lt_of_not_le less)
    rw [Nat.add_mul, Nat.mul_comm (n / d)] at this
    omega
  unfold roundQuotient
  rcases Nat.lt_or_eq_of_le below with less | same
  · -- rounded up
    obtain rfl : m = n / d + 1 := by omega
    rw [Nat.add_mul, Nat.one_mul, Nat.mul_comm (n / d)] at low odd
    rw [if_pos (by omega)]
  · subst same
    rw [Nat.mul_comm (n / d)] at high odd
    rw [if_neg (by omega)]

section

variable {n d : Nat}

/-- Comparing a quotient with a power of two, without fractions. -/
theorem scaled_lt_iff (positive : 0 < d) (z : Int) :
    n * Nat.pow 2 (-z).toNat < d * Nat.pow 2 z.toNat ↔ (n / d : ℚ) < 2 ^ z := by
  have left : (0 : ℚ) < 2 ^ (-z).toNat := by positivity
  have right : (0 : ℚ) < d := by exact_mod_cast positive
  rw [zpow_eq_div, div_lt_div_iff₀ right left, mul_comm ((2 : ℚ) ^ z.toNat)]
  exact_mod_cast Iff.rfl

theorem scaled_div (z : Int) :
    ((n * Nat.pow 2 (-z).toNat : Nat) / (d * Nat.pow 2 z.toNat : Nat) : ℚ) = n / d / 2 ^ z := by
  rw [zpow_eq_div, div_div_div_eq]
  push_cast [Nat.pow_eq]
  ring

/-- `logQuotient` finds the powers of two that a quotient lies between. -/
theorem logQuotient_spec (some : 0 < n) (positive : 0 < d) :
    (2 : ℚ) ^ logQuotient n d ≤ n / d ∧ (n / d : ℚ) < 2 ^ (logQuotient n d + 1) := by
  have bounds {k : Nat} (some : 0 < k) : (2 : ℚ) ^ (k.log2 : Int) ≤ k ∧ (k : ℚ) < 2 ^ (k.log2 + 1 : Int) := by
    have low : 2 ^ k.log2 ≤ k := Nat.log2_self_le some.ne'
    have high : k < 2 ^ (k.log2 + 1) := Nat.lt_log2_self
    exact ⟨by exact_mod_cast low, by exact_mod_cast high⟩
  obtain ⟨lowN, highN⟩ := bounds some
  obtain ⟨lowD, highD⟩ := bounds positive
  have divisor : (0 : ℚ) < d := by exact_mod_cast positive
  have high : (n / d : ℚ) < 2 ^ ((n.log2 : Int) - d.log2 + 1) := by
    rw [div_lt_iff₀ divisor]
    calc (n : ℚ) < 2 ^ (n.log2 + 1 : Int) := highN
      _ = 2 ^ ((n.log2 : Int) - d.log2 + 1) * 2 ^ (d.log2 : Int) := by
        rw [← zpow_add₀ two_ne_zero]
        congr 1
        ring
      _ ≤ 2 ^ ((n.log2 : Int) - d.log2 + 1) * d := by gcongr
  have low : (2 : ℚ) ^ ((n.log2 : Int) - d.log2 - 1) ≤ n / d := by
    rw [le_div_iff₀ divisor]
    calc (2 : ℚ) ^ ((n.log2 : Int) - d.log2 - 1) * d
        ≤ 2 ^ ((n.log2 : Int) - d.log2 - 1) * 2 ^ (d.log2 + 1 : Int) := by gcongr
      _ = 2 ^ (n.log2 : Int) := by
        rw [← zpow_add₀ two_ne_zero]
        congr 1
        ring
      _ ≤ n := lowN
  unfold logQuotient
  dsimp only
  split
  · rename_i less
    rw [scaled_lt_iff positive] at less
    exact ⟨low, by rwa [sub_add_cancel]⟩
  · rename_i more
    rw [scaled_lt_iff positive, not_lt] at more
    exact ⟨more, high⟩

end

/-! ### Numbers -/

theorem reach_le (mantissa : Nat) (exponent : Int) : reach mantissa exponent ≤ 2 := by
  unfold reach
  split <;> decide

theorem cast_reach_le (mantissa : Nat) (exponent : Int) : (reach mantissa exponent : ℚ) ≤ 2 := by
  exact_mod_cast reach_le mantissa exponent

/-- A number in its own unit is its mantissa. -/
theorem value_div (mantissa : Nat) (exponent : Int) : value mantissa exponent / 2 ^ exponent = mantissa :=
  mul_div_cancel_right₀ _ (by positivity)

theorem Proper.cast_lt {m : Nat} {e : Int} (proper : Proper m e) : (m : ℚ) + 1 ≤ 2 ^ 53 := by
  have := proper.below
  unfold hiddenBit at this
  exact_mod_cast this

/-- The patterns of finite numbers are below that of infinity. -/
theorem Proper.pattern_lt {m : Nat} {e : Int} (proper : Proper m e) : pattern m e < infinityBits := by
  have := proper.below
  have := proper.greatest
  unfold pattern infinityBits hiddenBit leastExponent at *
  omega

section

variable {n d m : Nat} {e : Int}

/-- A quotient at most half a unit away rounds to the natural there, unless that is odd and half a unit away. -/
theorem roundQuotient_of_near (positive : 0 < d) (low : 2 * m ≤ 2 * (n / d : ℚ) + 1)
    (high : 2 * (n / d : ℚ) ≤ 2 * m + 1)
    (odd : m % 2 = 1 → 2 * m < 2 * (n / d : ℚ) + 1 ∧ 2 * (n / d : ℚ) < 2 * m + 1) :
    roundQuotient n d = m := by
  have divisor : (0 : ℚ) < d := by exact_mod_cast positive
  have whole : (n / d : ℚ) * d = n := div_mul_cancel₀ _ divisor.ne'
  refine roundQuotient_eq positive ?_ ?_ fun isOdd => ⟨?_, ?_⟩
  · have : (2 * (m * d) : ℚ) ≤ 2 * n + d := by nlinarith
    exact_mod_cast this
  · have : (2 * n : ℚ) ≤ 2 * (m * d) + d := by nlinarith
    exact_mod_cast this
  · have : (2 * (m * d) : ℚ) < 2 * n + d := by nlinarith [(odd isOdd).1]
    exact_mod_cast this
  · have : (2 * n : ℚ) < 2 * (m * d) + d := by nlinarith [(odd isOdd).2]
    exact_mod_cast this

/-- The exponent that `nearest` works with for a quotient in the interval is that of the number, or one less
for a quotient just below a power of two. -/
theorem exponent_of_roundsTo (proper : Proper m e) (some : 0 < n) (positive : 0 < d)
    (rounds : RoundsTo (n / d) m e) :
    max (logQuotient n d - 52) leastExponent = e ∨
      (m = hiddenBit ∧ e ≠ leastExponent ∧ (n / d : ℚ) / 2 ^ e < m ∧
        max (logQuotient n d - 52) leastExponent = e - 1) := by
  obtain ⟨low, high⟩ := logQuotient_spec some positive
  generalize logQuotient n d = k at low high
  have unit : (0 : ℚ) < 2 ^ e := by positivity
  have least := proper.least
  have bounded := proper.cast_lt
  -- with `j` more than the exponent, the powers of two are measured in the mantissa's unit
  have above (j : Int) : (2 : ℚ) ^ j ≤ (n / d : ℚ) / 2 ^ e → e + j ≤ k := by
    intro reached
    rw [le_div_iff₀ unit, ← zpow_add₀ two_ne_zero] at reached
    have := (zpow_lt_zpow_iff_right₀ one_lt_two).mp (reached.trans_lt high)
    omega
  have below (j : Int) : (n / d : ℚ) / 2 ^ e < (2 : ℚ) ^ j → k < e + j := by
    intro reached
    rw [div_lt_iff₀ unit, ← zpow_add₀ two_ne_zero] at reached
    have := (zpow_lt_zpow_iff_right₀ one_lt_two).mp (low.trans_lt reached)
    omega
  have under := below 53 (by have := rounds.high; norm_num at bounded ⊢; linarith)
  by_cases smallest : e = leastExponent
  · left
    omega
  have normal : hiddenBit ≤ m := proper.normal.resolve_left smallest
  by_cases reached : (2 : ℚ) ^ (52 : Int) ≤ (n / d : ℚ) / 2 ^ e
  · have := above 52 reached
    left
    omega
  · right
    rw [not_le] at reached
    have size : (2 : ℚ) ^ (52 : Int) = hiddenBit := by norm_num [hiddenBit]
    have close := rounds.low
    have same : m = hiddenBit := by
      refine normal.antisymm' (Nat.le_of_lt_succ ?_)
      have wide := cast_reach_le m e
      rw [size] at reached
      have : (m : ℚ) < hiddenBit + 1 := by linarith
      exact_mod_cast this
    have before := above 51 (by
      rw [reach, if_pos ⟨same, smallest⟩, same] at close
      norm_num [hiddenBit] at close ⊢
      linarith)
    have under := below 52 reached
    refine ⟨same, smallest, ?_, by omega⟩
    rwa [same, ← size]

theorem divisor_pos (positive : 0 < d) (z : Int) : 0 < d * Nat.pow 2 z.toNat :=
  Nat.mul_pos positive (Nat.pow_pos Nat.two_pos)

/-- In the number's own unit a quotient in the interval rounds to the mantissa. -/
theorem roundQuotient_own (positive : 0 < d) (rounds : RoundsTo (n / d) m e) :
    roundQuotient (n * Nat.pow 2 (-e).toNat) (d * Nat.pow 2 e.toNat) = m := by
  have wide := cast_reach_le m e
  refine roundQuotient_of_near (divisor_pos positive e) ?_ ?_ fun isOdd => ?_ <;> rw [scaled_div]
  · linarith [rounds.low]
  · linarith [rounds.high]
  · exact ⟨by linarith [(rounds.odd isOdd).1], by linarith [(rounds.odd isOdd).2]⟩

/-- In the next smaller unit a quotient just below a power of two rounds to twice the hidden bit. -/
theorem roundQuotient_halved (positive : 0 < d) (power : m = hiddenBit) (notLeast : e ≠ leastExponent)
    (under : (n / d : ℚ) / 2 ^ e < m) (rounds : RoundsTo (n / d) m e) :
    roundQuotient (n * Nat.pow 2 (-(e - 1)).toNat) (d * Nat.pow 2 (e - 1).toNat) = 2 * hiddenBit := by
  have close := rounds.low
  have half : (n / d : ℚ) / 2 ^ (e - 1) = 2 * ((n / d : ℚ) / 2 ^ e) := by
    rw [zpow_sub_one₀ two_ne_zero]
    field_simp
  rw [reach, if_pos ⟨power, notLeast⟩, Nat.cast_one] at close
  rw [power] at close under
  refine roundQuotient_of_near (divisor_pos positive (e - 1)) ?_ ?_ fun isOdd => ?_
  · rw [scaled_div, half]
    push_cast
    linarith
  · rw [scaled_div, half]
    push_cast
    linarith
  · rw [Nat.mul_mod_right] at isOdd
    cases isOdd

/-- Every quotient in the interval around a number is rounded to the number. -/
theorem nearest_eq (proper : Proper m e) (nonzero : 0 < m) (positive : 0 < d) (rounds : RoundsTo (n / d) m e) :
    nearest n d = pattern m e := by
  have some : n ≠ 0 := by
    rintro rfl
    have low := rounds.low
    have wide := cast_reach_le m e
    have : (1 : ℚ) ≤ m := by exact_mod_cast nonzero
    norm_num at low
    linarith
  have finite := proper.pattern_lt
  unfold nearest
  rw [if_neg some]
  dsimp only
  rcases exponent_of_roundsTo proper (Nat.pos_of_ne_zero some) positive rounds with
    same | ⟨power, notLeast, under, less⟩
  · rw [same, roundQuotient_own positive rounds]
    exact Nat.min_eq_left finite.le
  · -- the mantissa carries into the exponent
    have carried : (e - 1 - leastExponent).toNat * hiddenBit + 2 * hiddenBit = pattern m e := by
      have least := proper.least
      rw [pattern, power]
      unfold hiddenBit
      omega
    rw [less, roundQuotient_halved positive power notLeast under rounds, carried]
    exact Nat.min_eq_left finite.le

end

end Binary64

end Lox
