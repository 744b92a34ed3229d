import Lox.Number.Text
import Lox.Proofs.Number.Bits
import Lox.Proofs.Number.Shortest
import Lox.Proofs.Scanner.Classification

/-!
# Written numbers

A finite number is written as digits, a point and digits, and the decimal that these denote has the value of the
one that was chosen for the number. So a magnitude is read back from its text.
-/

namespace Lox

namespace Number

open Binary64

/-- Digits, a point and digits. -/
structure IsPositional (whole fraction cs : List Char) : Prop where
  text : cs = whole ++ '.' :: fraction
  before : whole ≠ []
  after : fraction ≠ []
  digits : ∀ c ∈ whole ++ fraction, c.isDigit

variable {whole fraction cs : List Char}

theorem ofDigits_eq (digits : List Char) : ofDigits digits = Nat.ofDigitChars 10 digits 0 := rfl

theorem ofDigits_digitChars (n : Nat) : ofDigits (digitChars n) = n := Nat.ofDigitChars_ten_toDigits

theorem isDigit_of_mem_digitChars {n : Nat} {c : Char} (digit : c ∈ digitChars n) : c.isDigit :=
  Nat.isDigit_of_mem_toDigits (by decide) (by decide) digit

theorem isDigit_of_mem_replicate {n : Nat} {c : Char} (zero : c ∈ List.replicate n '0') : c.isDigit := by
  rw [List.eq_of_mem_replicate zero]
  rfl

theorem ofDigits_zeros_append (k : Nat) (digits : List Char) :
    ofDigits (List.replicate k '0' ++ digits) = ofDigits digits := by
  rw [ofDigits_eq, Nat.ofDigitChars_append, Nat.ofDigitChars_replicate_zero, Nat.mul_zero, ofDigits_eq]

theorem ofDigits_append_zeros (k : Nat) (digits : List Char) :
    ofDigits (digits ++ List.replicate k '0') = ofDigits digits * 10 ^ k := by
  rw [ofDigits_eq, Nat.ofDigitChars_append, Nat.ofDigitChars_replicate_zero, Nat.mul_comm, ofDigits_eq]

/-- A decimal without digits behind the point is written with zeros behind its own digits and with one behind
the point. -/
theorem positionalChars_of_nonneg {d : Decimal} {k : Nat} (natural : d.exponent = k) :
    IsPositional (digitChars d.digits ++ List.replicate k '0') ['0'] (positionalChars d) := by
  have some : digitChars d.digits ≠ [] := Nat.toDigits_ne_nil
  refine ⟨?_, by simp [some], List.cons_ne_nil _ _, fun c among => ?_⟩
  · rw [positionalChars, if_pos (natural ▸ Int.natCast_nonneg k), natural, Int.toNat_natCast]
  · rw [List.append_assoc, List.mem_append] at among
    exact among.elim isDigit_of_mem_digitChars fun zero =>
      isDigit_of_mem_replicate (n := k + 1) (List.replicate_succ' ▸ zero)

/-- A decimal is written as digits, a point and digits, which have its value. -/
theorem positionalChars_parts (d : Decimal) :
    ∃ whole fraction, IsPositional whole fraction (positionalChars d) ∧
      Decimal.value ⟨ofDigits (whole ++ fraction), -fraction.length⟩ = d.value := by
  have some : digitChars d.digits ≠ [] := Nat.toDigits_ne_nil
  have digit (c : Char) (among : c ∈ digitChars d.digits) : c.isDigit := isDigit_of_mem_digitChars among
  by_cases natural : 0 ≤ d.exponent
  · obtain ⟨k, exponent⟩ := Int.eq_ofNat_of_zero_le natural
    refine ⟨_, _, positionalChars_of_nonneg exponent, ?_⟩
    rw [List.append_assoc, ← List.replicate_succ' (n := k), ofDigits_append_zeros, ofDigits_digitChars,
      Decimal.value, Decimal.value, exponent]
    push_cast
    simp only [List.length_singleton, Nat.cast_one, zpow_neg, zpow_one, zpow_natCast]
    rw [pow_succ]
    field_simp
  unfold positionalChars
  dsimp only
  rw [if_neg natural]
  split
  · -- a point among the digits
    rename_i inside
    refine ⟨_, _, ⟨rfl, ?_, ?_, fun c among => ?_⟩, ?_⟩
    · rw [ne_eq, List.take_eq_nil_iff]
      rintro (none | none)
      · omega
      · exact some none
    · rw [ne_eq, List.drop_eq_nil_iff]
      omega
    · rw [List.take_append_drop] at among
      exact digit c among
    · rw [List.take_append_drop, ofDigits_digitChars, List.length_drop, Decimal.value, Decimal.value]
      dsimp only
      congr 2
      omega
  · -- zeros before the digits
    rename_i outside
    refine ⟨['0'], _, ⟨rfl, List.cons_ne_nil _ _, ?_, fun c among => ?_⟩, ?_⟩
    · simp [some]
    · rw [← List.append_assoc, List.mem_append] at among
      exact among.elim (fun zero => isDigit_of_mem_replicate (n := _ + 1) zero) (digit c)
    · have same := ofDigits_zeros_append (1 + ((-d.exponent).toNat - (digitChars d.digits).length))
        (digitChars d.digits)
      rw [List.replicate_add, List.append_assoc] at same
      rw [show ['0'] = List.replicate 1 '0' from rfl, same, ofDigits_digitChars, Decimal.value,
        Decimal.value, List.length_append, List.length_replicate]
      dsimp only
      congr 2
      omega

theorem IsPositional.parts (written : IsPositional whole fraction cs) :
    cs.takeWhile Char.isDigit = whole ∧ cs.dropWhile Char.isDigit = '.' :: fraction := by
  obtain ⟨rfl, -, -, digits⟩ := written
  exact Scanner.takeWhile_stops (fun c among => digits c (List.mem_append_left _ among)) rfl fraction

/-- There is only one way to take such characters apart. -/
theorem IsPositional.unique {whole' fraction' : List Char} (written : IsPositional whole fraction cs)
    (also : IsPositional whole' fraction' cs) : whole = whole' ∧ fraction = fraction' :=
  ⟨written.parts.1.symm.trans also.parts.1,
    (List.cons.inj (written.parts.2.symm.trans also.parts.2)).2⟩

/-! ### Reading -/

/-- A number literal with a point has the value of its digits. -/
theorem IsPositional.numberValue (written : IsPositional whole fraction cs) :
    Source.numberValue cs = Decimal.toFloat ⟨ofDigits (whole ++ fraction), -fraction.length⟩ := by
  have ⟨before, rest⟩ := written.parts
  rw [Source.numberValue, before, rest, List.drop_one, List.tail_cons, ofParts, zero_sub]

/-- The magnitude of a finite number is written as digits, a point and digits, and these are read as the number. -/
theorem magnitude_reads_back {m : Nat} {e : Int} (proper : Proper m e) :
    ∃ whole fraction, IsPositional whole fraction (program.magnitude m e) ∧
      Source.numberValue (program.magnitude m e) = Float.ofBits (pattern m e).toUInt64 := by
  unfold Layout.magnitude
  by_cases zero : m = 0
  · have least : e = leastExponent := by
      refine proper.normal.resolve_right fun normal => ?_
      rw [zero] at normal
      exact absurd normal (by decide)
    have written : IsPositional ['0'] ['0'] ['0', '.', '0'] := ⟨rfl, by simp, by simp, by simp⟩
    rw [if_pos zero, zero, least]
    exact ⟨['0'], ['0'], written, written.numberValue⟩
  · have positive : 0 < m := Nat.pos_of_ne_zero zero
    rw [if_neg zero]
    obtain ⟨whole, fraction, written, value⟩ := positionalChars_parts (Decimal.shortest program.tie m e)
    refine ⟨whole, fraction, written, written.numberValue.trans ?_⟩
    have rounds := Decimal.shortest_roundsTo (e := e) program.tie positive
    rw [← value] at rounds
    rw [Decimal.toFloat, Decimal.nearestBits_eq proper positive rounds]

/-- The characters of a number: its magnitude, behind a minus sign if the sign bit is set. -/
theorem text_of_finite {x : Float} {negative : Bool} {m : Nat} {e : Int}
    (finite : ofFloat x = .finite negative m e) :
    (text x).toList = (if negative then ['-'] else []) ++ program.magnitude m e := by
  rw [text, Layout.write, finite]
  dsimp only
  rw [String.toList_ofList]
  cases negative <;> rfl

/-- The value of a number literal has no sign bit, and if it is not infinite, its text is read as it again. -/
theorem literal_reads_back {digits : List Char} {x : Float} (literal : x = Source.numberValue digits)
    (finite : ∀ negative, ofFloat x ≠ .infinite negative) :
    ∃ whole fraction, IsPositional whole fraction (text x).toList ∧ Source.numberValue (text x).toList = x := by
  obtain ⟨m, e, same⟩ : ∃ m e, ofFloat x = .finite false m e := by
    rw [literal] at finite ⊢
    exact (ofFloat_ofBits (Decimal.nearestBits_le _)).resolve_left (finite false)
  obtain ⟨proper, value⟩ := eq_of_ofFloat same
  obtain ⟨whole, fraction, written, read⟩ := magnitude_reads_back proper
  rw [text_of_finite same]
  exact ⟨whole, fraction, written, read.trans value.symm⟩

/-! ### Naturals -/

theorem digitChars_mul_pow {n : Nat} (positive : 0 < n) (k : Nat) :
    digitChars (n * 10 ^ k) = digitChars n ++ List.replicate k '0' := by
  induction k with
  | zero => simp
  | succ k ih =>
    have next := Nat.toDigits_append_toDigits (b := 10) (d := 0) (by decide)
      (Nat.mul_pos positive (Nat.pow_pos (n := k) (by decide : 0 < 10))) (by decide)
    rw [Nat.toDigits_zero, Nat.add_zero] at next
    rw [List.replicate_succ', ← List.append_assoc, ← ih, digitChars, digitChars, next]
    congr 1
    ring

/-- The unit of a natural below `2 ^ 53` is at most 1. -/
theorem exponent_of_natural {m n : Nat} {e : Int} (proper : Proper m e) (same : Binary64.value m e = n)
    (small : n < 2 ^ 53) : e ≤ 0 := by
  by_contra coarse
  have normal : hiddenBit ≤ m := proper.normal.resolve_left (by unfold leastExponent; omega)
  have two : (2 : ℚ) ^ (1 : Int) ≤ 2 ^ e := zpow_le_zpow_right₀ one_le_two (by omega)
  have bit : (hiddenBit : ℚ) ≤ m := by exact_mod_cast normal
  have large : (2 ^ 53 : ℚ) ≤ n := calc
    (2 ^ 53 : ℚ) = hiddenBit * 2 ^ (1 : Int) := by norm_num [hiddenBit]
    _ ≤ m * 2 ^ e := by gcongr
    _ = n := same
  have : 2 ^ 53 ≤ n := by exact_mod_cast large
  omega

/-- A natural is written with a zero behind the point, and with its own digits before it as long as it is below
`2 ^ 53`, from where on not every natural is a number. -/
theorem magnitude_of_natural {m n : Nat} {e : Int} (proper : Proper m e) (same : Binary64.value m e = n) :
    ∃ whole, IsPositional whole ['0'] (program.magnitude m e) ∧ (n < 2 ^ 53 → whole = digitChars n) := by
  unfold Layout.magnitude
  by_cases zero : m = 0
  · have none : n = 0 := by
      rw [Binary64.value, zero, Nat.cast_zero, zero_mul] at same
      exact_mod_cast same.symm
    rw [if_pos zero, none]
    exact ⟨['0'], ⟨rfl, by simp, by simp, by simp⟩, fun _ => rfl⟩
  have positive : 0 < m := Nat.pos_of_ne_zero zero
  have natural := Decimal.shortest_exponent_nonneg program.tie positive same
  obtain ⟨k, exponent⟩ := Int.eq_ofNat_of_zero_le natural
  rw [if_neg zero]
  refine ⟨_, positionalChars_of_nonneg exponent, fun small => ?_⟩
  have value := (Decimal.shortest_of_natural program.tie positive (exponent_of_natural proper same small) same).2
  have digits : (Decimal.shortest program.tie m e).digits * 10 ^ k = n := by
    rw [Decimal.value, exponent, zpow_natCast] at value
    exact_mod_cast value
  have some : 0 < (Decimal.shortest program.tie m e).digits := by
    refine Nat.pos_of_ne_zero fun none => ?_
    rw [none, Nat.zero_mul] at digits
    have : Binary64.value m e ≠ 0 := by unfold Binary64.value; positivity
    rw [same, ← digits] at this
    exact this Nat.cast_zero
  rw [← digits, digitChars_mul_pow some]

end Number

end Lox
