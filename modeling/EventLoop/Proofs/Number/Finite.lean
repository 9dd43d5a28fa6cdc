/-!
# Finite doubles

A double is finite unless all bits of its exponent are set (`isFinite_unpack`).  The sign
has no influence on the exponent with which a number is packed, so that the negation of a
finite double is finite (`isFinite_neg`).
-/

namespace EventLoop.Number

open Float.Model Float.Model.UnpackedFloat

/-- What unpacks from bits is finite unless all bits of the exponent are set. -/
theorem isFinite_unpack (format : Format) (bits : BitVec format.numBits) :
    (UnpackedFloat.unpack format bits).isFinite = true ↔
      unpackExponent bits ≠ -1#(format.exponentBits) := by
  unfold UnpackedFloat.unpack
  dsimp only
  by_cases hlast : unpackExponent bits = -1#(format.exponentBits)
  · rw [if_pos hlast]
    refine ⟨fun h => absurd h ?_, fun hne => absurd hlast hne⟩
    by_cases hmantissa : unpackMantissa bits = 0#(format.mantissaBitsWithoutImplicit)
    · rw [if_pos hmantissa]
      exact Bool.false_ne_true
    · rw [if_neg hmantissa]
      exact Bool.false_ne_true
  · rw [if_neg hlast]
    refine ⟨fun _ => hlast, fun _ => ?_⟩
    by_cases hzero : unpackExponent bits = 0#(format.exponentBits)
    · rw [if_pos hzero]
      by_cases hmantissa : unpackMantissa bits = 0#(format.mantissaBitsWithoutImplicit)
      · rw [dif_pos hmantissa]
        rfl
      · rw [dif_neg hmantissa]
        rfl
    · rw [if_neg hzero]
      rfl

/-- The exponents of finite doubles have a bit that is not set. -/
theorem ofNat_ne_allOnes {n : Nat} (h : n < 2047) : BitVec.ofNat 11 n ≠ -1#11 := by
  intro heq
  have hnat : n % 2048 = 2047 := congrArg BitVec.toNat heq
  omega

/-- A number whose exponent is within the range of doubles stays finite when it is packed. -/
theorem isFinite_pack (sign : Sign) {mantissa : Nat} {exponent : Int} (hpos : 0 < mantissa)
    (hrange : exponent ≤ 971) :
    (Float.Model.pack (.finite sign mantissa exponent hpos)).isFinite = true := by
  refine (isFinite_unpack _ _).2 ?_
  change unpackExponent (UnpackedFloat.pack .binary64 (.finite sign mantissa exponent hpos)) ≠ _
  have hbiased : (exponent + (1023 : Nat) + (52 : Nat)).toNat < 2047 := by omega
  have hfits : ¬ 2 ^ 11 ≤ (exponent + (1023 : Nat) + (52 : Nat)).toNat + 1 := by omega
  unfold UnpackedFloat.pack
  dsimp only [Format.exponentBias]
  rw [if_neg hfits]
  split
  · rw [unpackExponent_packComponents]
    exact ofNat_ne_allOnes hbiased
  · rw [unpackExponent_packComponents]
    exact ofNat_ne_allOnes (by decide)

/-- The exponents of what unpacks from bits are within the range of doubles. -/
theorem exponent_le_of_unpack {bits : BitVec Format.binary64.numBits} {sign : Sign}
    {mantissa : Nat} {exponent : Int} {hpos : 0 < mantissa}
    (h : UnpackedFloat.unpack .binary64 bits = .finite sign mantissa exponent hpos) :
    exponent ≤ 971 := by
  have hfinite := (isFinite_unpack .binary64 bits).1 (by rw [h]; rfl)
  have hlt : (unpackExponent bits).toNat < 2047 := by
    have hne : (unpackExponent bits).toNat ≠ 2047 :=
      fun heq => hfinite (BitVec.eq_of_toNat_eq heq)
    have hbound : (unpackExponent bits).toNat < 2048 := (unpackExponent bits).isLt
    omega
  have hbias : Format.binary64.exponentBias = 1023 := rfl
  have hdigits : Format.binary64.mantissaBitsWithoutImplicit = 52 := rfl
  unfold UnpackedFloat.unpack at h
  dsimp only at h
  rw [if_neg hfinite] at h
  by_cases hzero : unpackExponent bits = 0#11
  · have hnone : (unpackExponent bits).toNat = 0 := congrArg BitVec.toNat hzero
    rw [if_pos hzero] at h
    by_cases hmantissa : unpackMantissa bits = 0#52
    · rw [dif_pos hmantissa] at h
      contradiction
    · rw [dif_neg hmantissa] at h
      obtain ⟨-, -, rfl⟩ := UnpackedFloat.finite.inj h
      omega
  · rw [if_neg hzero] at h
    obtain ⟨-, -, rfl⟩ := UnpackedFloat.finite.inj h
    omega

/-- The negation of a finite double is finite. -/
theorem isFinite_neg {x : Float} (h : x.isFinite = true) : (-x).isFinite = true := by
  change x.toModel.unpack.isFinite = true at h
  change (Float.Model.pack x.toModel.unpack.neg).isFinite = true
  cases hunpack : x.toModel.unpack with
  | notANumber | infinity =>
      rw [hunpack] at h
      contradiction
  | zero sign => cases sign <;> rfl
  | finite sign mantissa exponent hpos =>
      exact isFinite_pack _ hpos (exponent_le_of_unpack hunpack)

end EventLoop.Number
