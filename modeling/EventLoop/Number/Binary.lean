/-!
# Binary floating-point numbers as exact values

A finite double is `± significand · 2 ^ exponent`.  `Binary.ofFloat?` takes it
apart without loss, and `nearest` goes the other way from any ratio of natural
numbers: it is the double closest to the ratio, and of two equally close ones
the one with the even significand.  Everything else this library computes with
digits or remainders of doubles is exact arithmetic between these two.
-/

namespace EventLoop.Number

/-- A finite double, as `± significand · 2 ^ exponent`. -/
structure Binary where
  negative : Bool
  significand : Nat
  exponent : Int
  deriving DecidableEq

/-- The least exponent of a double's significand. -/
def leastExponent : Int := -1074

/-- Significands of normal numbers lie in `[2 ^ 52, 2 ^ 53)`. -/
def leadingBit : Nat := 0x10000000000000

/-- The bit of a double that holds its sign. -/
def signBit : Nat := 0x8000000000000000

/-- The bits of positive infinity. -/
def infinityBits : Nat := 2047 * leadingBit

/-- The value of a double, or `none` if it is not finite. -/
def Binary.ofFloat? (x : Float) : Option Binary :=
  let bits := x.toBits.toNat
  let magnitude := bits % signBit
  let negative := signBit ≤ bits
  if infinityBits ≤ magnitude then none
  else if magnitude < leadingBit then some ⟨negative, magnitude, leastExponent⟩
  else some ⟨negative, magnitude % leadingBit + leadingBit, leastExponent + (magnitude / leadingBit - 1 : Nat)⟩

/-- The quotient of two natural numbers rounded to the nearest integer, a tie
going to the even one. -/
def roundDiv (num den : Nat) : Nat :=
  let whole := num / den
  let rest := num % den
  if 2 * rest < den then whole
  else if den < 2 * rest then whole + 1
  else whole + whole % 2

/-- The ratio `num / (den · 2 ^ exponent)` as a numerator and a denominator. -/
def scale (num den : Nat) (exponent : Int) : Nat × Nat :=
  if 0 ≤ exponent then (num, den * Nat.pow 2 exponent.toNat) else (num * Nat.pow 2 (-exponent).toNat, den)

/-- The exponent that gives the ratio `num / den` a significand of 53 bits, or
the least exponent if that one is lower. -/
def fittingExponent (num den : Nat) : Int :=
  let guess : Int := (num.log2 : Int) - (den.log2 : Int) - 53
  let (n, d) := scale num den guess
  let exact := if n < d * (2 * leadingBit) then guess else guess + 1
  if exact < leastExponent then leastExponent else exact

/-- The bits of the double nearest to `num / den`; ratios too large for a
double give infinity. -/
def nearestBits (num den : Nat) : Nat :=
  if num = 0 then 0
  else
    let exponent := fittingExponent num den
    let (n, d) := scale num den exponent
    min infinityBits ((exponent - leastExponent).toNat * leadingBit + roundDiv n d)

/-- The double with a sign and the bits of its magnitude. -/
def ofMagnitude (negative : Bool) (bits : Nat) : Float :=
  Float.ofBits (UInt64.ofNat ((if negative then signBit else 0) + bits))

/-- The double nearest to `± num / den`. -/
def nearest (negative : Bool) (num den : Nat) : Float :=
  ofMagnitude negative (nearestBits num den)

/-- The double that is no number. -/
def notANumber : Float := Float.ofBits 0x7ff8000000000000

/-- The double of an exact value. -/
def Binary.toFloat (b : Binary) : Float :=
  if 0 ≤ b.exponent then nearest b.negative (b.significand * Nat.pow 2 b.exponent.toNat) 1
  else nearest b.negative b.significand (Nat.pow 2 (-b.exponent).toNat)

/-- The last of the natural numbers of 64 bits. -/
def lastNat64 : Nat := 0xffffffffffffffff

/-- The natural number nearest to the magnitude of an exact value, a half going
up. -/
def Binary.roundHalfUp (b : Binary) : Nat :=
  let (num, den) := scale b.significand 1 (-b.exponent)
  (2 * num + den) / (2 * den)

/-- The natural number of 64 bits nearest to a double, a half going up.  What
lies outside of the range goes to its nearer end, and what is no number to
zero. -/
def roundToNat64 (x : Float) : Nat :=
  match Binary.ofFloat? x with
  | some b => if b.negative then 0 else min lastNat64 b.roundHalfUp
  | none => if 0 < x then lastNat64 else 0

/-- The remainder of a truncating division: it has the sign of `x`, a smaller
magnitude than `y`, and differs from `x` by a multiple of `y`. -/
def remainder (x y : Float) : Float :=
  match Binary.ofFloat? x, Binary.ofFloat? y with
  | some a, some b =>
    if b.significand = 0 then notANumber
    else
      let exponent := min a.exponent b.exponent
      let m := a.significand * Nat.pow 2 (a.exponent - exponent).toNat
      let n := b.significand * Nat.pow 2 (b.exponent - exponent).toNat
      Binary.toFloat ⟨a.negative, m % n, exponent⟩
  | some _, none => if y.isNaN then y else x
  | none, _ => notANumber

end EventLoop.Number
