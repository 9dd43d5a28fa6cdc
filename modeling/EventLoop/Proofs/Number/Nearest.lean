import EventLoop.Number.Binary
import EventLoop.Proofs.Number.Finite
import Mathlib.Algebra.Order.Ring.Int

/-!
# Doubles of integers

The double nearest to an integer of 64 bits is finite (`isFinite_nearest`).  The exponent is
chosen so that the significand has 53 bits, so that after rounding the bits of the magnitude
stay far below those of infinity.
-/

namespace EventLoop.Number

open Float.Model Float.Model.UnpackedFloat

/-- A magnitude below that of infinity is finite, with either sign. -/
theorem isFinite_ofMagnitude (negative : Bool) {bits : Nat} (h : bits < infinityBits) :
    (ofMagnitude negative bits).isFinite = true := by
  have hbits : bits < 2047 * 2 ^ 52 := h
  have hunpack : (UnpackedFloat.unpack .binary64
      (UInt64.ofNat ((if negative then signBit else 0) + bits)).toBitVec).isFinite = true := by
    refine (isFinite_unpack _ _).2 fun hlast => ?_
    have hexponent :
        ((if negative then signBit else 0) + bits) % 2 ^ 64 / 2 ^ 52 % 2048 = 2047 := by
      have hnat := congrArg BitVec.toNat hlast
      rw [unpackExponent, BitVec.toNat_cast, BitVec.extractLsb_toNat, Nat.shiftRight_eq_div_pow]
        at hnat
      exact hnat
    cases negative with
    | false =>
        simp only [Bool.false_eq_true, if_false] at hexponent
        omega
    | true =>
        simp only [if_true, signBit] at hexponent
        omega
  change (Float.Model.pack (UnpackedFloat.unpack .binary64 _)).isFinite = true
  cases hvalue : UnpackedFloat.unpack .binary64
      (UInt64.ofNat ((if negative then signBit else 0) + bits)).toBitVec with
  | notANumber | infinity =>
      rw [hvalue] at hunpack
      contradiction
  | zero sign => cases sign <;> rfl
  | finite sign mantissa exponent hpos =>
      exact isFinite_pack _ hpos (exponent_le_of_unpack hvalue)

/-- A quotient is rounded up by one at most. -/
theorem roundDiv_le (num den : Nat) : roundDiv num den ≤ num / den + 1 := by
  unfold roundDiv
  dsimp only
  split
  · omega
  · split <;> omega

/-- The exponent of an integer is that of its leading bit, 53 bits further down or one less. -/
theorem fittingExponent_bounds {n : Nat} (h : n < 2 ^ 64) (hpos : n ≠ 0) :
    (n.log2 : Int) - 53 ≤ fittingExponent n 1 ∧ fittingExponent n 1 ≤ 11 := by
  have hlog : n.log2 < 64 := (Nat.log2_lt hpos).2 h
  have hone : Nat.log2 1 = 0 := rfl
  unfold fittingExponent leastExponent
  rw [hone]
  generalize n.log2 = log at hlog
  dsimp only
  split <;> split <;> omega

/-- An integer that is scaled to 53 bits has 54 bits at most. -/
theorem scale_lt {n : Nat} {exponent : Int} (h : (n.log2 : Int) - 53 ≤ exponent) :
    (scale n 1 exponent).1 < (scale n 1 exponent).2 * 2 ^ 54 := by
  have hself : n < 2 ^ (n.log2 + 1) := Nat.lt_log2_self
  unfold scale
  split
  · calc n < 2 ^ (n.log2 + 1) := hself
      _ ≤ 2 ^ (exponent.toNat + 54) := Nat.pow_le_pow_right (by decide) (by omega)
      _ = 2 ^ exponent.toNat * 2 ^ 54 := Nat.pow_add 2 _ 54
      _ = 1 * Nat.pow 2 exponent.toNat * 2 ^ 54 := by rw [Nat.one_mul]; rfl
  · calc n * 2 ^ (-exponent).toNat < 2 ^ (n.log2 + 1) * 2 ^ (-exponent).toNat :=
          Nat.mul_lt_mul_of_pos_right hself (Nat.two_pow_pos _)
      _ = 2 ^ (n.log2 + 1 + (-exponent).toNat) := (Nat.pow_add 2 _ _).symm
      _ ≤ 2 ^ 54 := Nat.pow_le_pow_right (by decide) (by omega)
      _ = 1 * 2 ^ 54 := (Nat.one_mul _).symm

/-- Whatever the bits are cut off at, they are those of the exponent and the significand at
most.  The ratio and the cut are variables here, because opened they count up to a double's
size. -/
theorem cutOff_le (ratio : Nat × Nat) (steps top : Nat) :
    (match ratio with | (n, d) => min top (steps + roundDiv n d)) ≤
      steps + roundDiv ratio.1 ratio.2 :=
  Nat.min_le_right top _

/-- The bits of the double nearest to an integer of 64 bits are below those of infinity. -/
theorem nearestBits_lt {n : Nat} (h : n < 2 ^ 64) : nearestBits n 1 < infinityBits := by
  rw [nearestBits]
  split
  · decide
  · rename_i hpos
    obtain ⟨hlow, hhigh⟩ := fittingExponent_bounds h hpos
    have hsteps : (fittingExponent n 1 - leastExponent).toNat ≤ 1085 := by
      unfold leastExponent
      omega
    have hround : roundDiv (scale n 1 (fittingExponent n 1)).1
        (scale n 1 (fittingExponent n 1)).2 ≤ 2 ^ 54 :=
      Nat.le_trans (roundDiv_le _ _) (Nat.div_lt_of_lt_mul (scale_lt hlow))
    refine Nat.lt_of_le_of_lt (cutOff_le (scale n 1 (fittingExponent n 1)) _ _) ?_
    unfold infinityBits leadingBit
    omega

/-- The double nearest to an integer of 64 bits is finite. -/
theorem isFinite_nearest (negative : Bool) {n : Nat} (h : n < 2 ^ 64) :
    (nearest negative n 1).isFinite = true :=
  isFinite_ofMagnitude negative (nearestBits_lt h)

end EventLoop.Number
