import Mathlib
import BraceScript.Value.Arithmetic

/-! # Binary64 values — what their bits say

    The bits of a value are its sign, a field that gives the exponent, and a fraction.  Zero is
    where field and fraction are zero, and every other value with a field below the greatest one is
    finite and has the sign of its bits.  Integers are rounded to such values: one that is in range
    keeps its sign, is zero only if it was, and stays whole.

    * `unpack_cases`: the kind of a value, from its bits;
    * `beq_zero_iff`, `lt_zero_iff`, `compareInt_zero_iff`: how values compare with zero;
    * `ratioBits_one`: the bits of an integer;
    * `exists_zero_iff`, `exists_negative_iff`, `isWhole_floatOfInt`: the values of integers. -/

namespace BraceScript.Number

open Float.Model (UnpackedFloat Format)

/-- The sign that a sign bit stands for. -/
def signOf : (negative : Bool) → UnpackedFloat.Sign
  | true => .negative
  | false => .positive

/-- A value that is finite and not zero, with the given sign. -/
def IsFinite (sign : UnpackedFloat.Sign) : UnpackedFloat → Prop
  | .finite s _ _ _ => s = sign
  | _ => False

/-! ## Taking bits apart -/

section

variable (b : BitVec Format.binary64.numBits)

theorem toNat_exponent : (UnpackedFloat.unpackExponent b).toNat = b.toNat / 2 ^ 52 % 2048 := by
  rw [UnpackedFloat.unpackExponent_def, BitVec.extractLsb'_toNat, Nat.shiftRight_eq_div_pow]
  rfl

theorem toNat_mantissa : (UnpackedFloat.unpackMantissa b).toNat = b.toNat % 2 ^ 52 := by
  rw [UnpackedFloat.unpackMantissa_def, BitVec.extractLsb'_toNat, Nat.shiftRight_zero]

theorem ofBitVec_sign :
    UnpackedFloat.Sign.ofBitVec (UnpackedFloat.unpackSign b) = signOf (2 ^ 63 ≤ b.toNat) := by
  have hlt : b.toNat < 2 ^ 64 := b.isLt
  have hsign : (UnpackedFloat.unpackSign b).toNat = b.toNat / 2 ^ 63 % 2 := by
    rw [UnpackedFloat.unpackSign_def, BitVec.extractLsb'_toNat, Nat.shiftRight_eq_div_pow]
    rfl
  by_cases h : 2 ^ 63 ≤ b.toNat
  · have hbit : b.toNat / 2 ^ 63 % 2 = 1 := by omega
    have hset : UnpackedFloat.unpackSign b = 1#1 := BitVec.eq_of_toNat_eq (hsign.trans hbit)
    rw [hset, decide_eq_true h]
    rfl
  · have hbit : b.toNat / 2 ^ 63 % 2 = 0 := by omega
    have hclear : UnpackedFloat.unpackSign b = 0#1 := BitVec.eq_of_toNat_eq (hsign.trans hbit)
    rw [hclear, decide_eq_false h]
    rfl

theorem exponent_eq_iff (e : BitVec 11) :
    UnpackedFloat.unpackExponent b = e ↔ b.toNat / 2 ^ 52 % 2048 = e.toNat := by
  rw [← toNat_exponent]
  exact ⟨congrArg BitVec.toNat, BitVec.eq_of_toNat_eq⟩

theorem mantissa_eq_iff (t : BitVec 52) :
    UnpackedFloat.unpackMantissa b = t ↔ b.toNat % 2 ^ 52 = t.toNat := by
  rw [← toNat_mantissa]
  exact ⟨congrArg BitVec.toNat, BitVec.eq_of_toNat_eq⟩

/-- The kind of a value: without an end or no number, zero, or finite. -/
theorem unpack_cases :
    (b.toNat / 2 ^ 52 % 2048 = 2047 ∧
      ((∃ sign, UnpackedFloat.unpack Format.binary64 b = .infinity sign) ∨
        UnpackedFloat.unpack Format.binary64 b = .notANumber)) ∨
    (b.toNat / 2 ^ 52 % 2048 = 0 ∧ b.toNat % 2 ^ 52 = 0 ∧
      ∃ sign, UnpackedFloat.unpack Format.binary64 b = .zero sign) ∨
    ((b.toNat / 2 ^ 52 % 2048 ≠ 0 ∨ b.toNat % 2 ^ 52 ≠ 0) ∧ b.toNat / 2 ^ 52 % 2048 ≠ 2047 ∧
      IsFinite (signOf (2 ^ 63 ≤ b.toNat)) (UnpackedFloat.unpack Format.binary64 b)) := by
  have hinfinite : _ ↔ b.toNat / 2 ^ 52 % 2048 = 2047 := exponent_eq_iff b (-1#11)
  have hexponent : _ ↔ b.toNat / 2 ^ 52 % 2048 = 0 := exponent_eq_iff b 0#11
  have hmantissa : _ ↔ b.toNat % 2 ^ 52 = 0 := mantissa_eq_iff b 0#52
  rw [UnpackedFloat.unpack]
  split
  · next h =>
      refine .inl ⟨hinfinite.mp h, ?_⟩
      split
      · exact .inl ⟨_, rfl⟩
      · exact .inr rfl
  · next h =>
      have hfinite := mt hinfinite.mpr h
      refine .inr ?_
      split
      · next h =>
          split
          · next hzero => exact .inl ⟨hexponent.mp h, hmantissa.mp hzero, _, rfl⟩
          · next hzero => exact .inr ⟨.inr (mt hmantissa.mpr hzero), hfinite, ofBitVec_sign b⟩
      · next h => exact .inr ⟨.inl (mt hexponent.mpr h), hfinite, ofBitVec_sign b⟩

/-- Putting a value together again gives the same value. -/
theorem unpack_pack_unpack : UnpackedFloat.unpack Format.binary64
    (UnpackedFloat.pack Format.binary64 (UnpackedFloat.unpack Format.binary64 b)) =
      UnpackedFloat.unpack Format.binary64 b := by
  rw [UnpackedFloat.pack_unpack _ (by decide)]
  split
  · next hnan =>
      rw [UnpackedFloat.isNaNBits, decide_eq_true_eq] at hnan
      have hvalue : UnpackedFloat.unpack Format.binary64 b = .notANumber := by
        rw [UnpackedFloat.unpack, if_pos hnan.1, if_neg hnan.2]
      rw [hvalue]
      rfl
  · rfl

/-- Without its sign bit, a value is its absolute value. -/
theorem unpack_unsigned {c : BitVec Format.binary64.numBits} (hc : c.toNat = b.toNat % 2 ^ 63) :
    UnpackedFloat.unpack Format.binary64 c = (UnpackedFloat.unpack Format.binary64 b).abs := by
  have hexponent : UnpackedFloat.unpackExponent c = UnpackedFloat.unpackExponent b := by
    apply BitVec.eq_of_toNat_eq
    rw [toNat_exponent, toNat_exponent]
    omega
  have hmantissa : UnpackedFloat.unpackMantissa c = UnpackedFloat.unpackMantissa b := by
    apply BitVec.eq_of_toNat_eq
    rw [toNat_mantissa, toNat_mantissa]
    omega
  have hsign : UnpackedFloat.Sign.ofBitVec (UnpackedFloat.unpackSign c) = .positive := by
    rw [ofBitVec_sign, decide_eq_false (by omega)]
    rfl
  simp only [UnpackedFloat.unpack, hexponent, hmantissa, hsign]
  split
  · split <;> rfl
  · split
    · split <;> rfl
    · rfl

end

/-! ## Comparing with zero -/

section

variable {x y : Float}

theorem unpack_zero : (0.0 : Float).toModel.unpack = .zero .positive := rfl

theorem beq_zero_iff : (x == 0.0) = true ↔ ∃ sign, x.toModel.unpack = .zero sign := by
  show x.toModel.unpack.beq (0.0 : Float).toModel.unpack = true ↔ _
  rw [unpack_zero]
  cases x.toModel.unpack with
  | notANumber => simp [UnpackedFloat.beq, UnpackedFloat.compare]
  | zero sign | infinity sign | finite sign =>
      cases sign <;> simp [UnpackedFloat.beq, UnpackedFloat.compare]

theorem lt_zero_iff : x < 0.0 ↔
    x.toModel.unpack = .infinity .negative ∨ IsFinite .negative x.toModel.unpack := by
  have hlt : x < 0.0 ↔ x.toModel.unpack.lt (0.0 : Float).toModel.unpack = true :=
    decide_eq_true_iff
  rw [hlt, unpack_zero]
  cases x.toModel.unpack with
  | notANumber => simp [UnpackedFloat.lt, UnpackedFloat.compare, IsFinite]
  | zero sign | infinity sign | finite sign =>
      cases sign <;> simp [UnpackedFloat.lt, UnpackedFloat.compare, IsFinite]

theorem isNaN_iff : x.isNaN = true ↔ x.toModel.unpack = .notANumber := by
  show x.toModel.unpack.isNaN = true ↔ _
  cases x.toModel.unpack <;> simp [UnpackedFloat.isNaN]

theorem isInf_iff : x.isInf = true ↔ ∃ sign, x.toModel.unpack = .infinity sign := by
  show x.toModel.unpack.isInf = true ↔ _
  cases x.toModel.unpack <;> simp [UnpackedFloat.isInf]

/-- Zero is a number and has an end. -/
theorem plain_of_zero (h : (x == 0.0) = true) : ¬ x.isNaN = true ∧ ¬ x.isInf = true := by
  obtain ⟨sign, hx⟩ := beq_zero_iff.mp h
  rw [isNaN_iff, isInf_iff, hx]
  constructor
  · intro h
    cases h
  · rintro ⟨s, h⟩
    cases h

/-- What is negative is a number other than zero. -/
theorem plain_of_negative (h : x < 0.0) : ¬ x.isNaN = true ∧ ¬ (x == 0.0) = true := by
  rw [isNaN_iff, beq_zero_iff]
  rw [lt_zero_iff] at h
  constructor
  · intro hx
    rw [hx] at h
    rcases h with h | h <;> cases h
  · rintro ⟨sign, hx⟩
    rw [hx] at h
    rcases h with h | h <;> cases h

theorem unpack_abs : x.abs.toModel.unpack = x.toModel.unpack.abs := by
  let unsigned := BitVec.ofNat Format.binary64.numBits (x.toBits.toNat % 2 ^ 63)
  have hunsigned : unsigned.toNat = x.toBits.toBitVec.toNat % 2 ^ 63 := by
    show (BitVec.ofNat 64 (x.toBits.toNat % 2 ^ 63)).toNat = x.toBits.toNat % 2 ^ 63
    rw [BitVec.toNat_ofNat]
    omega
  show UnpackedFloat.unpack Format.binary64 (UnpackedFloat.pack Format.binary64
      (UnpackedFloat.unpack Format.binary64 x.toBits.toBitVec).abs) =
    (UnpackedFloat.unpack Format.binary64 x.toBits.toBitVec).abs
  rw [← unpack_unsigned _ hunsigned, unpack_pack_unpack]

theorem beq_zero_of_abs (h : (x.abs == 0.0) = true) : (x == 0.0) = true := by
  rw [beq_zero_iff, unpack_abs] at h
  rw [beq_zero_iff]
  cases hx : x.toModel.unpack with
  | zero sign => exact ⟨sign, rfl⟩
  | _ =>
      rw [hx] at h
      obtain ⟨sign, h⟩ := h
      cases h

/-- What is not longer than zero is zero. -/
theorem beq_zero_of_abs_le (hle : y.abs ≤ x.abs) (h : (x.abs == 0.0) = true) :
    (y == 0.0) = true := by
  obtain ⟨sign, hx⟩ := beq_zero_iff.mp h
  have hmodel : y.abs.toModel.unpack.le x.abs.toModel.unpack = true := of_decide_eq_true hle
  rw [hx, unpack_abs] at hmodel
  rw [beq_zero_iff]
  cases hy : y.toModel.unpack with
  | zero sign => exact ⟨sign, rfl⟩
  | _ =>
      rw [hy] at hmodel
      simp [UnpackedFloat.abs, UnpackedFloat.le, UnpackedFloat.compare] at hmodel

section

variable {sign : UnpackedFloat.Sign} (h : IsFinite sign x.toModel.unpack)

include h

theorem IsFinite.not_zero : ¬ (x == 0.0) = true := by
  rw [beq_zero_iff]
  rintro ⟨s, hs⟩
  rw [hs] at h
  exact h

theorem IsFinite.not_isInf : ¬ x.isInf = true := by
  rw [isInf_iff]
  rintro ⟨s, hs⟩
  rw [hs] at h
  exact h

theorem IsFinite.lt_zero_iff : x < 0.0 ↔ sign = .negative := by
  rw [Number.lt_zero_iff]
  cases hx : x.toModel.unpack with
  | finite s =>
      rw [hx] at h
      obtain rfl : s = sign := h
      simp [IsFinite]
  | _ =>
      rw [hx] at h
      exact h.elim

end

/-- Zero has no bits but its sign. -/
theorem beq_zero_iff_bits : (x == 0.0) = true ↔
    x.toBits.toNat / 2 ^ 52 % 2048 = 0 ∧ x.toBits.toNat % 2 ^ 52 = 0 := by
  have hbits : x.toBits.toBitVec.toNat = x.toBits.toNat := rfl
  have hcases := unpack_cases x.toBits.toBitVec
  rw [hbits] at hcases
  rw [beq_zero_iff]
  show (∃ sign, UnpackedFloat.unpack Format.binary64 x.toBits.toBitVec = .zero sign) ↔ _
  rcases hcases with ⟨hfield, ⟨sign, h⟩ | h⟩ | ⟨hfield, hfraction, h⟩ | ⟨hparts, -, h⟩
  · rw [h, hfield]
    simp
  · rw [h, hfield]
    simp
  · exact ⟨fun _ => ⟨hfield, hfraction⟩, fun _ => h⟩
  · constructor
    · rintro ⟨sign, hzero⟩
      rw [hzero] at h
      exact h.elim
    · omega

theorem Dyadic.compare_zero_iff {d : Dyadic} :
    compare (0 * (d.denominator : Int)) d.signedNumerator = .eq ↔ d.mantissa = 0 := by
  have hnumerator : d.numerator = 0 ↔ d.mantissa = 0 := by simp [Dyadic.numerator]
  rw [Int.zero_mul, compare_eq_iff_eq, Dyadic.signedNumerator, ← hnumerator]
  split <;> omega

/-- Zero is found by its exact parts. -/
theorem compareInt_zero_iff : compareInt 0 x = some .eq ↔ (x == 0.0) = true := by
  rw [beq_zero_iff_bits]
  by_cases hinfinite : x.toBits.toNat / 2 ^ 52 % 2048 = 2047
  · have hparts : dyadic? x = none := if_pos hinfinite
    rw [compareInt, hparts]
    constructor
    · intro h
      dsimp only at h
      repeat' split at h
      all_goals cases h
    · omega
  · by_cases hfield : x.toBits.toNat / 2 ^ 52 % 2048 = 0
    · have hparts : dyadic? x = some ⟨2 ^ 63 ≤ x.toBits.toNat, x.toBits.toNat % 2 ^ 52, -1074⟩ :=
        (if_neg hinfinite).trans (if_pos hfield)
      simp only [compareInt, hparts, Option.some.injEq, Dyadic.compare_zero_iff, hfield, true_and]
    · have hparts : dyadic? x = some ⟨2 ^ 63 ≤ x.toBits.toNat, 2 ^ 52 + x.toBits.toNat % 2 ^ 52,
          (x.toBits.toNat / 2 ^ 52 % 2048 : Nat) - 1075⟩ :=
        (if_neg hinfinite).trans (if_neg hfield)
      simp only [compareInt, hparts, Option.some.injEq, Dyadic.compare_zero_iff]
      omega

end

/-! ## Values made of bits -/

/-- The bits of a value with its sign. -/
def signed : (negative : Bool) → (bits : Nat) → Nat
  | true, bits => 2 ^ 63 + bits
  | false, bits => bits

section

variable {negative : Bool} {bits : Nat}

/-- The sign bit is above all others. -/
theorem signed_parts (h : bits < infinityBits) : signed negative bits < 2 ^ 64 ∧
    signed negative bits / 2 ^ 52 % 2048 = bits / 2 ^ 52 ∧
    signed negative bits % 2 ^ 52 = bits % 2 ^ 52 ∧
    decide (2 ^ 63 ≤ signed negative bits) = negative := by
  rw [infinityBits, Nat.pow_eq] at h
  cases negative with
  | false => refine ⟨?_, ?_, ?_, decide_eq_false ?_⟩ <;> simp only [signed] <;> omega
  | true => refine ⟨?_, ?_, ?_, decide_eq_true ?_⟩ <;> simp only [signed] <;> omega

/-- The value of such bits is made of these bits. -/
theorem toBits_floatOfBits (h : bits < infinityBits) :
    (floatOfBits negative bits).toBits.toNat = signed negative bits := by
  have hbits : floatOfBits negative bits = Float.ofBits (UInt64.ofNat (signed negative bits)) := by
    cases negative <;> rfl
  obtain ⟨hlt, hfield, -⟩ := @signed_parts negative bits h
  generalize signed negative bits = n at hlt hfield hbits ⊢
  let b : BitVec Format.binary64.numBits := (UInt64.ofNat n).toBitVec
  have hb : b.toNat = n := by
    show (UInt64.ofNat n).toNat = n
    rw [UInt64.toNat_ofNat', Nat.mod_eq_of_lt hlt]
  have hpack : UnpackedFloat.pack Format.binary64 (UnpackedFloat.unpack Format.binary64 b) = b := by
    rw [UnpackedFloat.pack_unpack _ (by decide), if_neg]
    rw [UnpackedFloat.isNaNBits, decide_eq_true_eq]
    rintro ⟨hnan, -⟩
    have hfull : b.toNat / 2 ^ 52 % 2048 = 2047 := (exponent_eq_iff b (-1#11)).mp hnan
    rw [infinityBits, Nat.pow_eq] at h
    omega
  rw [hbits]
  show (UnpackedFloat.pack Format.binary64 (UnpackedFloat.unpack Format.binary64 b)).toNat = n
  rw [hpack, hb]

/-- A value other than zero is finite, with its sign. -/
theorem unpack_floatOfBits (hpos : 0 < bits) (h : bits < infinityBits) :
    IsFinite (signOf negative) (floatOfBits negative bits).toModel.unpack := by
  obtain ⟨-, hfield, hfraction, hsign⟩ := @signed_parts negative bits h
  have hbits : (floatOfBits negative bits).toBits.toBitVec.toNat = signed negative bits :=
    toBits_floatOfBits h
  have hcases := unpack_cases (floatOfBits negative bits).toBits.toBitVec
  rw [hbits, hfield, hfraction, hsign] at hcases
  rw [infinityBits, Nat.pow_eq] at h
  rcases hcases with ⟨hfull, -⟩ | ⟨hfield, hfraction, -⟩ | ⟨-, -, hfinite⟩
  · omega
  · omega
  · exact hfinite

/-- The exact parts of a value whose leading bit is left out. -/
theorem dyadic?_floatOfBits (hnormal : 2 ^ 52 ≤ bits) (h : bits < infinityBits) :
    dyadic? (floatOfBits negative bits) =
      some ⟨negative, 2 ^ 52 + bits % 2 ^ 52, (bits / 2 ^ 52 : Nat) - 1075⟩ := by
  obtain ⟨-, hfield, hfraction, hsign⟩ := @signed_parts negative bits h
  have hfinite : ¬ bits / 2 ^ 52 = 2047 := by
    rw [infinityBits, Nat.pow_eq] at h
    omega
  have hexponent : ¬ bits / 2 ^ 52 = 0 := by omega
  simp only [dyadic?, Nat.pow_eq, toBits_floatOfBits h, hfield, hfraction, hsign, if_neg hfinite,
    if_neg hexponent]

end

/-! ## Integers as binary64 values -/

/-- The bits of a positive integer: its leading bit gives the exponent, and it is shifted until that
    bit stands right above the fraction. -/
theorem ratioBits_one {k : Nat} (hk : 0 < k) : ratioBits k 1 =
    (k.log2 + 1022) * 2 ^ 52 + roundDiv (k * 2 ^ (52 - k.log2)) (2 ^ (k.log2 - 52)) := by
  have hone : (1 : Nat).log2 = 0 := by decide
  have hlog : floorLog2 k 1 = k.log2 := by
    have hle : 2 ^ k.log2 ≤ k := Nat.log2_self_le (by omega)
    have hnone : (-(k.log2 : Int)).toNat = 0 := by omega
    rw [floorLog2, hone]
    simp [hnone, hle]
  have hunit : max ((k.log2 : Int) - 52) (-1074) = (k.log2 : Int) - 52 := by omega
  have hdown : (-((k.log2 : Int) - 52)).toNat = 52 - k.log2 := by omega
  have hup : ((k.log2 : Int) - 52).toNat = k.log2 - 52 := by omega
  have hfield : ((k.log2 : Int) - 52 + 1074).toNat = k.log2 + 1022 := by omega
  rw [ratioBits, if_neg (by omega), hlog]
  simp only [hunit, hdown, hup, hfield, Nat.one_mul, Nat.pow_eq]

/-- An integer that fits into the fraction and its leading bit is shifted there as it is. -/
theorem ratioBits_small {k : Nat} (hk : 0 < k) (hsmall : k.log2 ≤ 52) :
    ratioBits k 1 / 2 ^ 52 = k.log2 + 1023 ∧
      2 ^ 52 + ratioBits k 1 % 2 ^ 52 = k * 2 ^ (52 - k.log2) := by
  have hbits := ratioBits_one hk
  have hround : roundDiv (k * 2 ^ (52 - k.log2)) (2 ^ (k.log2 - 52)) = k * 2 ^ (52 - k.log2) := by
    rw [Nat.sub_eq_zero_of_le hsmall, Nat.pow_zero]
    simp [roundDiv, Nat.mod_one]
  rw [hround] at hbits
  have hlow : 2 ^ 52 ≤ k * 2 ^ (52 - k.log2) := by
    calc 2 ^ 52 = 2 ^ k.log2 * 2 ^ (52 - k.log2) := by
          rw [← Nat.pow_add, Nat.add_sub_cancel' hsmall]
      _ ≤ k * 2 ^ (52 - k.log2) := Nat.mul_le_mul_right _ (Nat.log2_self_le (by omega))
  have hhigh : k * 2 ^ (52 - k.log2) < 2 ^ 53 := by
    calc k * 2 ^ (52 - k.log2) < 2 ^ (k.log2 + 1) * 2 ^ (52 - k.log2) :=
          Nat.mul_lt_mul_of_pos_right Nat.lt_log2_self (Nat.two_pow_pos _)
      _ = 2 ^ 53 := by rw [← Nat.pow_add]; congr 1; omega
  omega

section

variable {n : Int} {x : Float}

theorem floatOfInt?_eq_some (h : floatOfInt? n = some x) :
    ratioBits n.natAbs 1 < infinityBits ∧ x = floatOfBits (n < 0) (ratioBits n.natAbs 1) := by
  simp only [floatOfInt?, floatOfRatio?] at h
  split at h
  · next hrange => exact ⟨hrange, (Option.some.inj h).symm⟩
  · cases h

/-- An integer other than zero becomes a finite value with its sign. -/
theorem unpack_floatOfInt (hn : n ≠ 0) (h : floatOfInt? n = some x) :
    IsFinite (signOf (n < 0)) x.toModel.unpack := by
  obtain ⟨hrange, rfl⟩ := floatOfInt?_eq_some h
  refine unpack_floatOfBits ?_ hrange
  rw [ratioBits_one (by omega)]
  omega

theorem unpack_floatOfInt_zero (h : floatOfInt? 0 = some x) :
    x.toModel.unpack = .zero .positive := by
  obtain ⟨-, rfl⟩ := floatOfInt?_eq_some h
  rfl

/-- An integer stays whole: a small one loses no bits, and what a large one is rounded to has no
    bits below the unit. -/
theorem isWhole_floatOfInt (hn : n ≠ 0) (h : floatOfInt? n = some x) : Value.isWhole x = true := by
  obtain ⟨hrange, rfl⟩ := floatOfInt?_eq_some h
  generalize hk : n.natAbs = k at hrange ⊢
  have hpos : 0 < k := by omega
  have hbits := ratioBits_one hpos
  have hparts := @dyadic?_floatOfBits (n < 0) _ (by omega) hrange
  simp only [Value.isWhole, hparts, Dyadic.numerator, Dyadic.denominator, Nat.pow_eq,
    beq_iff_eq]
  by_cases hsmall : k.log2 ≤ 52
  · obtain ⟨hfield, hmantissa⟩ := ratioBits_small hpos hsmall
    have hdown : (-(((k.log2 + 1023 : Nat) : Int) - 1075)).toNat = 52 - k.log2 := by omega
    have hup : (((k.log2 + 1023 : Nat) : Int) - 1075).toNat = 0 := by omega
    rw [hmantissa, hfield, hdown, hup, Nat.pow_zero, Nat.mul_one]
    exact Nat.mul_mod_left _ _
  · have hunit : (-(((ratioBits k 1 / 2 ^ 52 : Nat) : Int) - 1075)).toNat = 0 := by omega
    rw [hunit]
    exact Nat.mod_one _

/-- An integer in range is zero exactly if its value is. -/
theorem exists_zero_iff : (∃ x, floatOfInt? n = some x ∧ (x == 0.0) = true) ↔ n = 0 := by
  constructor
  · rintro ⟨x, hx, hzero⟩
    by_contra hn
    exact (unpack_floatOfInt hn hx).not_zero hzero
  · rintro rfl
    exact ⟨floatOfBits false 0, rfl, beq_zero_iff.mpr ⟨_, unpack_floatOfInt_zero rfl⟩⟩

/-- An integer in range is negative exactly if its value is, which is not infinite. -/
theorem exists_negative_iff : (∃ x, floatOfInt? n = some x ∧ x < 0.0 ∧ x.isInf = false) ↔
    n < 0 ∧ (floatOfInt? n).isSome = true := by
  constructor
  · rintro ⟨x, hx, hlt, -⟩
    refine ⟨?_, by rw [hx]; rfl⟩
    by_cases hn : n = 0
    · subst hn
      rw [lt_zero_iff, unpack_floatOfInt_zero hx] at hlt
      rcases hlt with h | h <;> cases h
    · have hsign := (unpack_floatOfInt hn hx).lt_zero_iff.mp hlt
      by_contra hpos
      rw [decide_eq_false hpos] at hsign
      cases hsign
  · rintro ⟨hn, hsome⟩
    obtain ⟨x, hx⟩ := Option.isSome_iff_exists.mp hsome
    have hfinite := unpack_floatOfInt (Int.ne_of_lt hn) hx
    refine ⟨x, hx, hfinite.lt_zero_iff.mpr ?_, Bool.eq_false_iff.mpr hfinite.not_isInf⟩
    rw [decide_eq_true hn]
    rfl

end

end BraceScript.Number
