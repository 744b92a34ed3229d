import Lox.Proofs.Number.Rounding

/-!
# Bit patterns of numbers

Every finite number is its sign bit before the pattern of its magnitude, and negation flips that bit, also
that of zero.
-/

namespace Lox

namespace Binary64

open Float.Model.UnpackedFloat
open Float.Model (Format)

/-- The bit pattern of a finite number: its sign bit and the pattern of its magnitude. -/
theorem ofBits_finite {bits m : Nat} {negative : Bool} {e : Int} (bounded : bits < 2 ^ 64)
    (finite : ofBits bits = .finite negative m e) :
    Proper m e ∧ bits = (if negative then 2 ^ 63 else 0) + pattern m e := by
  have sign : (if decide (bits / 2 ^ 63 % 2 = 1) = true then 2 ^ 63 else 0) = bits / 2 ^ 63 * 2 ^ 63 := by
    split <;> rename_i bit <;> rw [decide_eq_true_iff] at bit <;> omega
  have fields : bits = bits / 2 ^ 63 * 2 ^ 63 + (bits / hiddenBit % 0x800 * hiddenBit + bits % hiddenBit) := by
    unfold hiddenBit
    omega
  unfold ofBits at finite
  dsimp only at finite
  split_ifs at finite with infinite whole subnormal
  · -- a subnormal number
    cases finite
    refine ⟨⟨?_, le_rfl, by decide, .inl rfl⟩, ?_⟩
    · unfold hiddenBit
      omega
    · refine fields.trans (congrArg₂ (· + ·) sign.symm ?_)
      rw [subnormal, pattern, sub_self]
      simp
  · cases finite
    refine ⟨⟨?_, ?_, ?_, .inr ?_⟩, ?_⟩
    · unfold hiddenBit
      omega
    · omega
    · unfold leastExponent
      omega
    · exact Nat.le_add_right _ _
    · refine fields.trans (congrArg₂ (· + ·) sign.symm ?_)
      unfold pattern leastExponent hiddenBit at *
      omega

/-! ### Negation -/

theorem unpack_neg (spec : Format) (sign : Sign) (exponent : BitVec spec.exponentBits)
    (mantissa : BitVec spec.mantissaBitsWithoutImplicit) :
    unpack spec (packComponents spec (-sign) exponent mantissa) =
      (unpack spec (packComponents spec sign exponent mantissa)).neg := by
  simp only [unpack, unpackExponent_packComponents, unpackMantissa_packComponents,
    unpackSign_packComponents, Sign.ofBitVec_toBitVec]
  split_ifs <;> rfl

theorem toNat_packComponents (sign : Sign) (exponent : BitVec 11) (mantissa : BitVec 52) :
    (packComponents Format.binary64 sign exponent mantissa).toNat =
      sign.toBitVec.toNat * 2 ^ 63 + exponent.toNat * 2 ^ 52 + mantissa.toNat := by
  have split {k l : Nat} (high : BitVec k) (low : BitVec l) :
      (high ++ low).toNat = high.toNat * 2 ^ l + low.toNat := by
    rw [BitVec.toNat_append, ← Nat.shiftLeft_add_eq_or_of_lt low.isLt, Nat.shiftLeft_eq]
  have whole := split (sign.toBitVec ++ exponent) mantissa
  have front := split sign.toBitVec exponent
  rw [front] at whole
  refine whole.trans ?_
  ring

/-- Bits that are not above those of infinity are a positive sign, an exponent and a mantissa, which do not make a
NaN with either sign. -/
theorem components_of_le (bits : BitVec Format.binary64.numBits) (positive : bits.toNat ≤ infinityBits) :
    ∃ exponent mantissa, bits = packComponents Format.binary64 .positive exponent mantissa ∧
      ∀ sign, ¬ isNaNBits (packComponents Format.binary64 sign exponent mantissa) := by
  have whole := packComponents_unpackSign_unpackExponent_unpackMantissa bits
  generalize Sign.ofBitVec (unpackSign bits) = sign at whole
  have size := toNat_packComponents sign (unpackExponent bits) (unpackMantissa bits)
  rw [whole] at size
  unfold infinityBits at positive
  cases sign with
  | negative =>
    rw [show Sign.negative.toBitVec.toNat = 1 from rfl] at size
    omega
  | positive =>
    refine ⟨unpackExponent bits, unpackMantissa bits, whole.symm, fun sign nan => ?_⟩
    rw [isNaNBits, unpackExponent_packComponents, unpackMantissa_packComponents] at nan
    obtain ⟨all, some⟩ := of_decide_eq_true nan
    have exponent : (unpackExponent bits).toNat = 2047 := by
      rw [all]
      rfl
    have mantissa : (unpackMantissa bits).toNat ≠ 0 := fun none => some (BitVec.eq_of_toNat_eq none)
    rw [show Sign.positive.toBitVec.toNat = 0 from rfl, exponent] at size
    omega

/-- The bits of a number without a sign are those it was made of. -/
theorem toBits_ofBits {bits : UInt64} (positive : bits.toNat ≤ infinityBits) :
    (Float.ofBits bits).toBits = bits := by
  obtain ⟨exponent, mantissa, whole, number⟩ := components_of_le bits.toBitVec positive
  rw [← UInt64.toBitVec_inj]
  change Float.Model.UnpackedFloat.pack Format.binary64 (unpack Format.binary64 bits.toBitVec) = bits.toBitVec
  rw [whole, pack_unpack, if_neg (number .positive)]

/-- Negation sets the sign bit of a number without one. -/
theorem toBits_neg {x : Float} (positive : x.toBits.toNat ≤ infinityBits) :
    (-x).toBits.toNat = 2 ^ 63 + x.toBits.toNat := by
  obtain ⟨exponent, mantissa, whole, number⟩ := components_of_le x.toBits.toBitVec positive
  have negated : (-x).toBits.toBitVec = packComponents Format.binary64 .negative exponent mantissa := by
    change Float.Model.UnpackedFloat.pack Format.binary64 (unpack Format.binary64 x.toBits.toBitVec).neg = _
    rw [whole, ← unpack_neg, pack_unpack, if_neg (number _)]
    rfl
  rw [← UInt64.toNat_toBitVec, ← UInt64.toNat_toBitVec, negated, whole, toNat_packComponents,
    toNat_packComponents, show Sign.negative.toBitVec.toNat = 1 from rfl,
    show Sign.positive.toBitVec.toNat = 0 from rfl]
  omega

theorem toNat_toUInt64 {bits : Nat} (small : bits ≤ infinityBits) : bits.toUInt64.toNat = bits := by
  rw [Nat.toUInt64_eq]
  exact UInt64.toNat_ofNat_of_lt' (small.trans_lt (by decide))

/-- Patterns up to that of infinity stand for numbers without a sign. -/
theorem ofFloat_ofBits {bits : Nat} (small : bits ≤ infinityBits) :
    ofFloat (Float.ofBits bits.toUInt64) = .infinite false ∨
      ∃ m e, ofFloat (Float.ofBits bits.toUInt64) = .finite false m e := by
  have fits := toNat_toUInt64 small
  have unsigned : decide (bits / 0x8000000000000000 % 2 = 1) = false := by
    unfold infinityBits at small
    exact decide_eq_false (by omega)
  rw [ofFloat, toBits_ofBits (fits.trans_le small), fits]
  unfold ofBits
  dsimp only
  rw [unsigned]
  split_ifs with all none
  · exact .inl rfl
  · -- a NaN would be above infinity
    unfold infinityBits hiddenBit at *
    omega
  · exact .inr ⟨_, _, rfl⟩
  · exact .inr ⟨_, _, rfl⟩

/-- A finite number is its magnitude, negated if it has its sign bit set. -/
theorem eq_of_ofFloat {x : Float} {negative : Bool} {m : Nat} {e : Int}
    (finite : ofFloat x = .finite negative m e) :
    Proper m e ∧ x = if negative then -Float.ofBits (pattern m e).toUInt64
      else Float.ofBits (pattern m e).toUInt64 := by
  obtain ⟨proper, bits⟩ := ofBits_finite x.toBits.toNat_lt finite
  refine ⟨proper, ?_⟩
  have small := proper.pattern_lt
  have fits := toNat_toUInt64 small.le
  have magnitude : (Float.ofBits (pattern m e).toUInt64).toBits = (pattern m e).toUInt64 :=
    toBits_ofBits (fits.trans_le small.le)
  rw [← Float.toBits_inj, ← UInt64.toNat_inj, bits]
  cases negative with
  | true =>
    rw [if_pos rfl, if_pos rfl, toBits_neg, magnitude, fits]
    rw [magnitude, fits]
    exact small.le
  | false => rw [if_neg Bool.false_ne_true, if_neg Bool.false_ne_true, magnitude, fits, Nat.zero_add]

end Binary64

end Lox
