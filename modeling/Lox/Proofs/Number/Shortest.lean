import Lox.Proofs.Number.Rounding

/-!
# Shortest decimals read back

The decimal that is chosen for a number is in the interval that rounds to it, whichever grid it is found on:
a point of a grid is only taken if it is in the interval, and on the last grid the number itself is a point.
So rounding the decimal gives the number. Where a number is a natural below `2 ^ 53`, the points of the coarser
grids in its interval are the number itself.
-/

namespace Lox

open Binary64

namespace Decimal

/-- The value of a decimal. -/
def value (d : Decimal) : ℚ := d.digits * 10 ^ d.exponent

variable {m : Nat} {e p : Int}

/-! ### Reading a decimal -/

/-- No quotient in the interval of a number is as small or as large as those that are not worked out. -/
theorem bounds_of_roundsTo {q : ℚ} (proper : Proper m e) (positive : 0 < m) (rounds : RoundsTo q m e) :
    (2 : ℚ) ^ (-1075 : Int) ≤ q ∧ q ≤ 2 ^ (1024 : Int) := by
  have unit : (0 : ℚ) < 2 ^ e := by positivity
  have wide := cast_reach_le m e
  have some : (1 : ℚ) ≤ m := by exact_mod_cast positive
  have bounded := proper.cast_lt
  constructor
  · have least : (2 : ℚ) ^ (-1074 : Int) ≤ 2 ^ e := zpow_le_zpow_right₀ one_le_two proper.least
    have half : 1 / 2 ≤ q / 2 ^ e := by linarith [rounds.low]
    rw [le_div_iff₀ unit] at half
    calc (2 : ℚ) ^ (-1075 : Int) = 1 / 2 * 2 ^ (-1074 : Int) := by
          rw [show (-1075 : Int) = -1074 - 1 by rfl, zpow_sub_one₀ two_ne_zero, mul_comm, one_div]
      _ ≤ 1 / 2 * 2 ^ e := by gcongr
      _ ≤ q := half
  · have greatest : (2 : ℚ) ^ e ≤ 2 ^ (971 : Int) := zpow_le_zpow_right₀ one_le_two proper.greatest
    have high : q / 2 ^ e ≤ 2 ^ 53 := by linarith [rounds.high]
    rw [div_le_iff₀ unit] at high
    calc q ≤ 2 ^ 53 * 2 ^ e := high
      _ ≤ 2 ^ 53 * 2 ^ (971 : Int) := by gcongr
      _ = 2 ^ (1024 : Int) := by rw [← zpow_natCast, ← zpow_add₀ two_ne_zero]; rfl

/-- A decimal in the interval around a number is read as the number. -/
theorem nearestBits_eq {d : Decimal} (proper : Proper m e) (positive : 0 < m)
    (rounds : RoundsTo d.value m e) : d.nearestBits = pattern m e := by
  obtain ⟨low, high⟩ := bounds_of_roundsTo proper positive rounds
  have tiny : (0 : ℚ) < 2 ^ (-1075 : Int) := by positivity
  have some : d.digits ≠ 0 := by
    intro none
    rw [value, none, Nat.cast_zero, zero_mul] at low
    exact absurd tiny low.not_gt
  have moderate : ¬ 400 < d.exponent := by
    intro large
    have one : (1 : ℚ) ≤ d.digits := by exact_mod_cast Nat.pos_of_ne_zero some
    have : (2 : ℚ) ^ (1024 : Int) < d.value := calc
      (2 : ℚ) ^ (1024 : Int) < 2 ^ (3 * 400 : Int) := zpow_lt_zpow_right₀ one_lt_two (by decide)
      _ = 8 ^ (400 : Int) := by rw [zpow_mul]; norm_num
      _ ≤ 10 ^ (400 : Int) := zpow_le_zpow_left₀ (by decide) (by norm_num) (by norm_num)
      _ ≤ 10 ^ d.exponent := zpow_le_zpow_right₀ (by norm_num) large.le
      _ ≤ d.value := le_mul_of_one_le_left (by positivity) one
    linarith
  have visible : ¬ (d.digits.log2 : Int) + 1 + 3 * d.exponent < -1080 := by
    intro small
    have negative : d.exponent ≤ 0 := by omega
    have digits : (d.digits : ℚ) < 2 ^ (d.digits.log2 + 1 : Int) := by
      exact_mod_cast Nat.lt_log2_self (n := d.digits)
    -- a power of ten with a negative exponent is less than that of eight
    have power : (10 : ℚ) ^ d.exponent ≤ 2 ^ (3 * d.exponent) := by
      obtain ⟨k, exponent⟩ := Int.exists_eq_neg_ofNat negative
      rw [zpow_mul, exponent, zpow_neg, zpow_neg, zpow_natCast, zpow_natCast]
      gcongr
      norm_num
    have : d.value < 2 ^ (-1075 : Int) := calc
      d.value ≤ d.digits * 2 ^ (3 * d.exponent) := by unfold value; gcongr
      _ < 2 ^ (d.digits.log2 + 1 : Int) * 2 ^ (3 * d.exponent) := by gcongr
      _ = 2 ^ ((d.digits.log2 : Int) + 1 + 3 * d.exponent) := by rw [← zpow_add₀ two_ne_zero]
      _ ≤ 2 ^ (-1075 : Int) := zpow_le_zpow_right₀ one_le_two (by omega)
    linarith
  have ratio : ((d.digits * Nat.pow 10 d.exponent.toNat : Nat) / (Nat.pow 10 (-d.exponent).toNat : Nat) : ℚ) =
      d.value := by
    rw [value, zpow_eq_div]
    push_cast [Nat.pow_eq]
    ring
  unfold nearestBits
  rw [if_neg some, if_neg moderate, if_neg visible]
  exact nearest_eq proper positive (Nat.pow_pos (by decide)) (ratio ▸ rounds)

/-- No decimal is read as a number with a sign, or as none. -/
theorem nearestBits_le (d : Decimal) : d.nearestBits ≤ infinityBits := by
  unfold nearestBits nearest
  split_ifs
  · exact Nat.zero_le _
  · exact le_rfl
  · exact Nat.zero_le _
  · exact Nat.zero_le _
  · exact Nat.min_le_right _ _

/-! ### Grids -/

/-- The number itself is in the interval around it. -/
theorem roundsTo_value (m : Nat) (e : Int) : RoundsTo (Binary64.value m e) m e := by
  have same := value_div m e
  have some : (0 : ℚ) < reach m e := by
    unfold reach
    split <;> norm_num
  constructor <;> rw [same]
  · linarith
  · linarith
  · exact fun _ => ⟨by linarith, by linarith⟩

/-- The scale of the grid, by which everything in it is multiplied. -/
private theorem around_scale (m : Nat) (e p : Int) : ∃ scale : Nat, 0 < scale ∧
    (Grid.around m e p).low = (4 * m - reach m e) * scale ∧
    (Grid.around m e p).value = 4 * m * scale ∧
    (Grid.around m e p).high = (4 * m + 2) * scale ∧
    ((Grid.around m e p).unit : ℚ) = 4 * (10 ^ p / 2 ^ e) * scale := by
  refine ⟨Nat.pow 2 (e - 2).toNat * Nat.pow 10 (-p).toNat,
    Nat.mul_pos (Nat.pow_pos (by decide)) (Nat.pow_pos (by decide)), rfl, rfl, rfl, ?_⟩
  have two : (2 : ℚ) ^ (2 - e) * 2 ^ (e - 2).toNat = 2 ^ (2 - e).toNat := by
    rw [zpow_eq_div, neg_sub, div_mul_cancel₀ _ (by positivity)]
  have ten : (10 : ℚ) ^ p * 10 ^ (-p).toNat = 10 ^ p.toNat := by
    rw [zpow_eq_div, div_mul_cancel₀ _ (by positivity)]
  have four : (4 : ℚ) / 2 ^ e = 2 ^ (2 - e) := by
    rw [zpow_sub₀ two_ne_zero]
    norm_num
  change ((Nat.pow 2 (2 - e).toNat * Nat.pow 10 p.toNat : Nat) : ℚ) = _
  push_cast [Nat.pow_eq]
  rw [← two, ← ten, ← four]
  ring

/-- A grid admits a multiple of its step exactly if that is in the interval. -/
theorem admits_iff (positive : 0 < m) (n : Nat) :
    (Grid.around m e p).admits n ↔ RoundsTo (n * 10 ^ p) m e := by
  obtain ⟨scale, some, low, -, high, unit⟩ := around_scale m e p
  have wide : reach m e ≤ 4 * m := (reach_le m e).trans (by omega)
  have closed : (Grid.around m e p).closed = decide (m % 2 = 0) := rfl
  have scaled : (0 : ℚ) < scale := by exact_mod_cast some
  have point : ((n * (Grid.around m e p).unit : Nat) : ℚ) = 4 * (n * 10 ^ p / 2 ^ e) * scale := by
    push_cast
    rw [unit]
    ring
  have low : ((Grid.around m e p).low : ℚ) = (4 * m - reach m e) * scale := by
    rw [low]
    push_cast [wide]
    rfl
  have high : ((Grid.around m e p).high : ℚ) = (4 * m + 2) * scale := by
    rw [high]
    push_cast
    rfl
  -- the comparisons with the ends, in the mantissa's unit
  have fromLow : (Grid.around m e p).low ≤ n * (Grid.around m e p).unit ↔
      4 * m ≤ 4 * (n * 10 ^ p / 2 ^ e : ℚ) + reach m e := by
    rw [← Nat.cast_le (α := ℚ), point, low, mul_le_mul_iff_left₀ scaled, sub_le_iff_le_add]
  have toHigh : n * (Grid.around m e p).unit ≤ (Grid.around m e p).high ↔
      4 * (n * 10 ^ p / 2 ^ e : ℚ) ≤ 4 * m + 2 := by
    rw [← Nat.cast_le (α := ℚ), point, high, mul_le_mul_iff_left₀ scaled]
  have aboveLow : (Grid.around m e p).low < n * (Grid.around m e p).unit ↔
      4 * m < 4 * (n * 10 ^ p / 2 ^ e : ℚ) + reach m e := by
    rw [← Nat.cast_lt (α := ℚ), point, low, mul_lt_mul_iff_left₀ scaled, sub_lt_iff_lt_add]
  have belowHigh : n * (Grid.around m e p).unit < (Grid.around m e p).high ↔
      4 * (n * 10 ^ p / 2 ^ e : ℚ) < 4 * m + 2 := by
    rw [← Nat.cast_lt (α := ℚ), point, high, mul_lt_mul_iff_left₀ scaled]
  unfold Grid.admits
  rw [closed]
  by_cases even : m % 2 = 0
  · simp only [even, decide_true, if_true, Bool.and_eq_true, decide_eq_true_eq, fromLow, toHigh]
    exact ⟨fun inside => ⟨inside.1, inside.2, fun odd => by omega⟩, fun rounds => ⟨rounds.low, rounds.high⟩⟩
  · simp only [even, decide_false, Bool.false_eq_true, if_false, Bool.and_eq_true, decide_eq_true_eq,
      aboveLow, belowHigh]
    exact ⟨fun inside => ⟨inside.1.le, inside.2.le, fun _ => inside⟩, fun rounds => rounds.odd (by omega)⟩

/-- Only a point that the grid admits is taken. -/
theorem admits_of_closest? {g : Grid} {tie : Tie} {n : Nat} (closest : g.closest? tie = some n) :
    g.admits n := by
  unfold Grid.closest? at closest
  dsimp only at closest
  split at closest
  · rename_i down up
    cases closest
    exact down
  · rename_i down up
    cases closest
    exact up
  · cases closest
  · rename_i down up
    split at closest
    · cases closest
      exact down
    split at closest
    · cases closest
      exact up
    split at closest
    · cases closest
      exact up
    · cases closest
      split
      · exact down
      · exact up

/-- The multiple of the step below the value is taken if no other one is admitted. -/
theorem closest?_ne_none {g : Grid} {tie : Tie} (down : g.admits (g.value / g.unit)) :
    g.closest? tie ≠ none := by
  unfold Grid.closest?
  dsimp only
  rw [down]
  split
  · exact Option.some_ne_none _
  · rename_i below _
    cases below
  · rename_i below _
    cases below
  · cases tie <;> dsimp only <;> split_ifs <;> exact Option.some_ne_none _

/-! ### The chosen decimal -/

/-- If the number is a multiple of the step, it is the one below the value. -/
theorem quotient_eq {n : Nat} (multiple : Binary64.value m e = n * 10 ^ p) :
    (Grid.around m e p).value / (Grid.around m e p).unit = n := by
  obtain ⟨scale, some, -, value, -, unit⟩ := around_scale m e p
  have scaled : (0 : ℚ) < scale := by exact_mod_cast some
  have step : (0 : ℚ) < 4 * (10 ^ p / 2 ^ e) := by positivity
  have positive : 0 < (Grid.around m e p).unit := by
    have : (0 : ℚ) < (Grid.around m e p).unit := by
      rw [unit]
      exact mul_pos step scaled
    exact_mod_cast this
  have whole : (Grid.around m e p).value = n * (Grid.around m e p).unit := by
    have mantissa : (m : ℚ) = n * 10 ^ p / 2 ^ e := by
      rw [← multiple, value_div]
    have : ((Grid.around m e p).value : ℚ) = n * (Grid.around m e p).unit := by
      rw [unit, value]
      push_cast
      rw [mantissa]
      ring
    exact_mod_cast this
  rw [whole, Nat.mul_div_cancel n positive]

/-- On the last grid the number itself is a point. -/
theorem base_value (m : Nat) (e : Int) :
    let g := Grid.around m e (min e 0)
    ((g.value / g.unit : Nat) : ℚ) * 10 ^ min e 0 = Binary64.value m e := by
  dsimp only
  obtain ⟨n, multiple⟩ : ∃ n : Nat, Binary64.value m e = n * 10 ^ min e 0 := by
    rcases le_total 0 e with above | below
    · lift e to ℕ using above
      exact ⟨m * 2 ^ e, by simp [Binary64.value]⟩
    · obtain ⟨k, rfl⟩ := Int.exists_eq_neg_ofNat below
      refine ⟨m * 5 ^ k, ?_⟩
      have ten : (10 : ℚ) ^ k = 2 ^ k * 5 ^ k := by rw [← mul_pow]; norm_num
      rw [min_eq_left below, Binary64.value, zpow_neg, zpow_neg, zpow_natCast, zpow_natCast, ten]
      push_cast
      field_simp
  rw [quotient_eq multiple, multiple]

/-- The decimal is in the interval, on whichever grid the search for it starts. -/
theorem shortestFrom_roundsTo (tie : Tie) (positive : 0 < m) (k : Nat) :
    RoundsTo (shortestFrom tie m e (min e 0) k).value m e := by
  induction k with
  | zero =>
    rw [shortestFrom, value, base_value]
    exact roundsTo_value m e
  | succ k ih =>
    rw [shortestFrom]
    split
    · rename_i digits closest
      exact (admits_iff positive digits).mp (admits_of_closest? closest)
    · exact ih

theorem shortest_roundsTo (tie : Tie) (positive : 0 < m) : RoundsTo (shortest tie m e).value m e :=
  shortestFrom_roundsTo tie positive _

/-! ### Naturals -/

/-- A natural in the interval around a natural whose unit is 1 or less is that natural. -/
theorem eq_of_roundsTo {n n' : Nat} (small : e ≤ 0) (same : Binary64.value m e = n)
    (rounds : RoundsTo n' m e) : n' = n := by
  have unit : (0 : ℚ) < 2 ^ e := by positivity
  have fine : (2 : ℚ) ^ e ≤ 1 := zpow_le_one_of_nonpos₀ one_le_two small
  have wide := cast_reach_le m e
  have mantissa : (m : ℚ) = n / 2 ^ e := by rw [← same, value_div]
  have low : (n / 2 ^ e : ℚ) ≤ n' / 2 ^ e + 1 / 2 := by linarith [rounds.low]
  have high : (n' / 2 ^ e : ℚ) ≤ n / 2 ^ e + 1 / 2 := by linarith [rounds.high]
  rw [div_add' _ _ _ unit.ne', div_le_div_iff_of_pos_right unit] at low high
  have : (n : ℚ) < n' + 1 := by linarith
  have : n < n' + 1 := by exact_mod_cast this
  have : (n' : ℚ) < n + 1 := by linarith
  have : n' < n + 1 := by exact_mod_cast this
  omega

/-- A natural is found on the grid of the units, if not on a coarser one. -/
theorem shortestFrom_of_natural (tie : Tie) (positive : 0 < m) {n : Nat} (small : e ≤ 0)
    (same : Binary64.value m e = n) (k : Nat) (enough : 0 ≤ e + k) :
    0 ≤ (shortestFrom tie m e e k).exponent ∧ (shortestFrom tie m e e k).value = n := by
  have base : min e 0 = e := min_eq_left small
  induction k with
  | zero =>
    rw [Int.natCast_zero, add_zero] at enough
    have found := base_value m e
    rw [base] at found
    exact ⟨enough, found.trans same⟩
  | succ k ih =>
    rw [shortestFrom]
    split
    · rename_i digits closest
      refine ⟨enough, ?_⟩
      have rounds := (admits_iff positive digits).mp (admits_of_closest? closest)
      obtain ⟨j, power⟩ := Int.eq_ofNat_of_zero_le enough
      have whole : (digits * 10 ^ (e + (k + 1 : Nat)) : ℚ) = (digits * 10 ^ j : Nat) := by
        rw [power]
        push_cast
        rfl
      rw [whole] at rounds
      rw [value, whole, eq_of_roundsTo small same rounds]
    · rename_i none
      rcases Int.lt_or_le 0 (e + (k + 1 : Nat)) with more | units
      · exact ih (by push_cast at more; omega)
      · -- the grid of the units admits the number itself
        have zero : e + (k + 1 : Nat) = 0 := le_antisymm units enough
        refine absurd none (closest?_ne_none ?_)
        have point : Binary64.value m e = n * 10 ^ (e + (k + 1 : Nat)) := by
          rw [zero, zpow_zero, mul_one, same]
        rw [quotient_eq point, admits_iff positive, ← point]
        exact roundsTo_value m e

theorem powerBound_nonneg {x : Int} (positive : 0 ≤ x) : 0 ≤ powerBound x := by
  rw [powerBound, if_pos positive]
  omega

/-- A natural whose unit is 1 or less is found as itself, with zeros behind its digits at most. -/
theorem shortest_of_natural (tie : Tie) (positive : 0 < m) {n : Nat} (small : e ≤ 0)
    (same : Binary64.value m e = n) :
    0 ≤ (shortest tie m e).exponent ∧ (shortest tie m e).value = n := by
  have one : (1 : ℚ) ≤ n := by
    have : 0 < n := by
      have : (0 : ℚ) < n := by
        rw [← same, Binary64.value]
        positivity
      exact_mod_cast this
    exact_mod_cast this
  have size : (n : ℚ) < 2 ^ (m.log2 + 1 + e : Int) := by
    rw [← same, Binary64.value, zpow_add₀ two_ne_zero]
    gcongr
    exact_mod_cast Nat.lt_log2_self (n := m)
  have length : 0 < m.log2 + 1 + e := by
    by_contra short
    have : (2 : ℚ) ^ (m.log2 + 1 + e : Int) ≤ 1 := zpow_le_one_of_nonpos₀ one_le_two (by omega)
    linarith
  have top : 0 ≤ powerBound (e + m.log2 + 2) := powerBound_nonneg (by omega)
  unfold shortest
  dsimp only
  rw [min_eq_left small]
  exact shortestFrom_of_natural tie positive small same _ (by omega)

theorem le_shortestFrom_exponent (tie : Tie) (m : Nat) (e base : Int) (k : Nat) :
    base ≤ (shortestFrom tie m e base k).exponent := by
  induction k with
  | zero => exact le_rfl
  | succ k ih =>
    rw [shortestFrom]
    split
    · exact Int.le_add_of_nonneg_right (Int.natCast_nonneg _)
    · exact ih

/-- The decimal for a natural of any size has no digits behind the point. -/
theorem shortest_exponent_nonneg (tie : Tie) (positive : 0 < m) {n : Nat} (same : Binary64.value m e = n) :
    0 ≤ (shortest tie m e).exponent := by
  rcases le_total e 0 with small | large
  · exact (shortest_of_natural tie positive small same).1
  · have least := le_shortestFrom_exponent tie m e (min e 0)
    rw [min_eq_right large] at least
    unfold shortest
    dsimp only
    rw [min_eq_right large]
    exact least _

end Decimal

end Lox
