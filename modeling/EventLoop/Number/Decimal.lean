import EventLoop.Number.Binary

/-!
# Decimal notation of doubles

Writing: among the decimals that read back as a given double, `shortest` takes
one with the fewest digits and, of those, the one nearest to the double; of two
equally near ones it takes the larger.  The digits are laid out positionally
(`positional`), whatever the exponent, or with an exponent where a record
format asks for it (`recordText`).

Reading: `Decimal.read?` accepts digits with an optional point and an optional
exponent, and `Decimal.toFloat` is the nearest double.
-/

namespace EventLoop.Number

/-- The number `digits · 10 ^ exponent`. -/
structure Decimal where
  digits : Nat
  exponent : Int
  deriving DecidableEq

/-! ## Reading -/

/-- The value of a digit in a base up to sixteen. -/
def digitValue? (base : Nat) (c : Char) : Option Nat :=
  let value? :=
    if c.isDigit then some (c.toNat - '0'.toNat)
    else if 'a' ≤ c ∧ c ≤ 'f' then some (c.toNat - 'a'.toNat + 10)
    else if 'A' ≤ c ∧ c ≤ 'F' then some (c.toNat - 'A'.toNat + 10)
    else none
  value?.filter (· < base)

/-- The number that a list of digits of a base denotes. -/
def natOfDigits (base : Nat) (cs : List Char) : Nat :=
  cs.foldl (fun n c => base * n + (digitValue? base c).getD 0) 0

/-- An exponent with its mark and sign, or nothing at all. -/
def exponentOf? : List Char → Option Int
  | [] => some 0
  | mark :: cs =>
    if mark ≠ 'e' ∧ mark ≠ 'E' then none
    else
      let (negative, digits) :=
        match cs with
        | '-' :: rest => (true, rest)
        | '+' :: rest => (false, rest)
        | rest => (false, rest)
      if digits.isEmpty ∨ ¬ digits.all Char.isDigit then none
      else some (if negative then -(natOfDigits 10 digits : Int) else natOfDigits 10 digits)

/-- Digits with an optional point among, before or after them and an optional
exponent; at least one digit comes before the exponent. -/
def Decimal.read? (cs : List Char) : Option Decimal :=
  let whole := cs.takeWhile Char.isDigit
  let (fraction, rest) :=
    match cs.dropWhile Char.isDigit with
    | '.' :: rest => (rest.takeWhile Char.isDigit, rest.dropWhile Char.isDigit)
    | rest => ([], rest)
  if whole.isEmpty ∧ fraction.isEmpty then none
  else (exponentOf? rest).map fun exponent =>
    ⟨natOfDigits 10 (whole ++ fraction), exponent - fraction.length⟩

/-- The double nearest to a decimal with a sign.  Decimals beyond the range of
doubles by many orders of magnitude are settled without computing powers. -/
def Decimal.toFloat (negative : Bool) (d : Decimal) : Float :=
  let order : Int := d.exponent + (Nat.toDigits 10 d.digits).length
  if d.digits = 0 ∨ order < -400 then ofMagnitude negative 0
  else if 400 < order then ofMagnitude negative infinityBits
  else if 0 ≤ d.exponent then nearest negative (d.digits * Nat.pow 10 d.exponent.toNat) 1
  else nearest negative d.digits (Nat.pow 10 (-d.exponent).toNat)

/-- A number as configuration texts and arguments write it: a decimal, `inf`,
`infinity` or `nan` in any case, with an optional sign. -/
def readFloat? (s : String) : Option Float :=
  let (negative, cs) :=
    match s.toList with
    | '-' :: rest => (true, rest)
    | '+' :: rest => (false, rest)
    | rest => (false, rest)
  let word := String.ofList (cs.map Char.toLower)
  if word = "inf" ∨ word = "infinity" then some (ofMagnitude negative infinityBits)
  else if word = "nan" then some notANumber
  else (Decimal.read? cs).map (Decimal.toFloat negative)

/-! ## Writing -/

/-- The largest `e` with `10 ^ e ≤ num / den`. -/
def decimalOrder (num den : Nat) : Int :=
  if den ≤ num then ((Nat.toDigits 10 (num / den)).length : Int) - 1
  else -((Nat.toDigits 10 ((den - 1) / num)).length : Int)

/-- The reals that read back as a positive double, as three numerators over
one denominator: the value itself and the two ends, which belong to the
interval if `closed`. -/
structure Rounding where
  low : Nat
  value : Nat
  high : Nat
  den : Nat
  closed : Bool

/-- Halfway to the neighbouring doubles on either side.  Below a power of two
the neighbours are twice as close. -/
def Binary.rounding (b : Binary) : Rounding :=
  let (unit, den) := scale 1 1 (2 - b.exponent)
  let below := if b.significand = leadingBit ∧ leastExponent < b.exponent then 1 else 2
  { low := (4 * b.significand - below) * unit
    value := 4 * b.significand * unit
    high := (4 * b.significand + 2) * unit
    den := den
    closed := b.significand % 2 = 0 }

/-- The multiple of `10 ^ exponent` nearest to the value among the two beside
it that lie in the interval.  At equal distance the larger one is taken. -/
def Rounding.onGrid? (r : Rounding) (exponent : Int) : Option Decimal :=
  let up := Nat.pow 10 (-exponent).toNat
  let step := r.den * Nat.pow 10 exponent.toNat
  let below := r.value * up / step
  let distance := r.value * up % step
  let belowFits := if r.closed then r.low * up ≤ below * step else r.low * up < below * step
  let above := (below + 1) * step
  let aboveFits := if r.closed then above ≤ r.high * up else above < r.high * up
  if belowFits ∧ (¬ aboveFits ∨ 2 * distance < step) then some ⟨below, exponent⟩
  else if aboveFits then some ⟨below + 1, exponent⟩
  else none

/-- The decimal that a positive finite double is written as: the first hit on
the grids of one, two, … seventeen digits. -/
def Binary.shortest (b : Binary) : Decimal :=
  let r := b.rounding
  let order := decimalOrder r.value r.den
  ((List.range 17).findSome? fun (n : Nat) => r.onGrid? (order - n)).getD ⟨b.significand, b.exponent⟩

/-- The digits of a decimal without the zeros at their end, and the number of
places that the point stands to the right of the first digit. -/
def Decimal.layout (d : Decimal) : List Char × Int :=
  let digits := Nat.toDigits 10 d.digits
  ((digits.reverse.dropWhile (· = '0')).reverse, digits.length + d.exponent)

/-- Digits with the point `point` places to the right of the first one: zeros
fill the places in between, and without a fraction there is no point. -/
def positional (digits : List Char) (point : Int) : List Char :=
  if point ≤ 0 then "0.".toList ++ List.replicate (-point).toNat '0' ++ digits
  else if (digits.length : Int) ≤ point then
    digits ++ List.replicate (point.toNat - digits.length) '0'
  else digits.take point.toNat ++ '.' :: digits.drop point.toNat

/-- Digits with the point after the first one and an exponent. -/
def scientific (digits : List Char) (point : Int) : List Char :=
  digits.take 1 ++ (if 1 < digits.length then '.' :: digits.drop 1 else []) ++ 'e' :: (toString (point - 1)).toList

/-- How a number format writes the digits of a positive double. -/
abbrev Layout := List Char → Int → List Char

/-- A double in a layout; the texts of zero, infinity and what is no number
are fixed but for the zero's own. -/
def floatText (layout : Layout) (zero : String) (x : Float) : String :=
  match Binary.ofFloat? x with
  | some b =>
    let sign := if b.negative then "-" else ""
    if b.significand = 0 then sign ++ zero
    else
      let (digits, point) := b.shortest.layout
      sign ++ String.ofList (layout digits point)
  | none => if x.isNaN then "NaN" else if x < 0 then "-inf" else "inf"

/-- The positional text of a double: never an exponent, and no point where the
double is an integer. -/
def decimalText (x : Float) : String := floatText positional "0" x

/-- The text of a number in a script: zero has no sign. -/
def formatNumber (x : Float) : String :=
  if x == 0 then "0" else decimalText x

/-- The positional text of a double with at least one digit after the point. -/
def fractionText (x : Float) : String :=
  let text := decimalText x
  if text.toList.contains '.' then text else text ++ ".0"

/-- The text of a double in a data record: positional from `0.00001` up to
sixteen digits before the point, always with a point or an exponent. -/
def recordText (x : Float) : String :=
  floatText
    (fun digits point =>
      if -5 < point ∧ point ≤ 16 then
        let text := positional digits point
        if text.contains '.' then text else text ++ ".0".toList
      else scientific digits point)
    "0.0" x

end EventLoop.Number
