import EventLoop.Toml.Moment
import EventLoop.Toml.Value

/-!
# Single values of TOML

Truth values, numbers and moments are runs of letters, digits and a few signs,
which are told apart as a whole (`readScalar?`).

In a number an underscore may stand between two digits.  Integers have 64 bits
and can be written in base two, eight, ten and sixteen; a number is not larger
than the largest double.
-/

namespace EventLoop.Toml

/-! ## Numbers -/

/-- Digits without the underscores between them. -/
def ungroup? (isDigit : Char → Bool) : List Char → Option (List Char)
  | [] => none
  | [c] => if isDigit c then some [c] else none
  | c :: '_' :: cs => if isDigit c then (ungroup? isDigit cs).map (c :: ·) else none
  | c :: cs => if isDigit c then (ungroup? isDigit cs).map (c :: ·) else none

/-- Decimal digits of which the first is no zero, unless it is the only one. -/
def ungroupWhole? (cs : List Char) : Option (List Char) :=
  (ungroup? Char.isDigit cs).filter fun digits => digits.length = 1 || digits.head? != some '0'

/-- A sign, if there is one, and what follows it. -/
def splitSign : List Char → Bool × List Char
  | '-' :: cs => (true, cs)
  | '+' :: cs => (false, cs)
  | cs => (false, cs)

/-- The number of digits in a base, within the range of integers. -/
def readBased? (base : Nat) (cs : List Char) : Option Int :=
  ((ungroup? (fun c => (Number.digitValue? base c).isSome) cs).map (Number.natOfDigits base)).bind
    fun n => if n < Number.intBound then some (n : Int) else none

/-- An integer. -/
def readInteger? : List Char → Option Int
  | '0' :: 'x' :: cs => readBased? 16 cs
  | '0' :: 'o' :: cs => readBased? 8 cs
  | '0' :: 'b' :: cs => readBased? 2 cs
  | cs =>
    let (negative, digits) := splitSign cs
    (ungroupWhole? digits).bind fun digits =>
      Number.readInt? (String.ofList (if negative then '-' :: digits else digits))

/-- The digits after a point, if there is one, and what follows them. -/
def splitFraction? : List Char → Option (List Char)
  | [] => some []
  | '.' :: cs => (ungroup? Char.isDigit cs).map ('.' :: ·)
  | _ => none

/-- An exponent with its mark, if there is one. -/
def splitExponent? : List Char → Option (List Char)
  | [] => some []
  | _ :: '-' :: cs => (ungroup? Char.isDigit cs).map fun digits => 'e' :: '-' :: digits
  | _ :: '+' :: cs => (ungroup? Char.isDigit cs).map ('e' :: ·)
  | _ :: cs => (ungroup? Char.isDigit cs).map ('e' :: ·)

/-- Whether a character marks an exponent. -/
def isExponentMark (c : Char) : Bool := c = 'e' || c = 'E'

/-- A number with a point or an exponent, or one that is not finite. -/
def readNumber? (cs : List Char) : Option Float :=
  let (negative, cs) := splitSign cs
  if cs = "inf".toList then some (Number.ofMagnitude negative Number.infinityBits)
  else if cs = "nan".toList then some Number.notANumber
  else do
    let mantissa := cs.takeWhile (! isExponentMark ·)
    let whole ← ungroupWhole? (mantissa.takeWhile (· ≠ '.'))
    let fraction ← splitFraction? (mantissa.dropWhile (· ≠ '.'))
    let exponent ← splitExponent? (cs.dropWhile (! isExponentMark ·))
    if fraction.isEmpty ∧ exponent.isEmpty then none
    else
      let number := (← Number.Decimal.read? (whole ++ fraction ++ exponent)).toFloat negative
      if number.isInf ∧ ¬ negative then none else some number

/-! ## Values -/

/-- Whether a character may stand in a single value. -/
def isScalarChar (c : Char) : Bool :=
  c.isAlphanum || c = '_' || c = '+' || c = '-' || c = '.' || c = ':'

/-- The end of a single value.  One blank may stand between a date and a
time. -/
def splitScalar (cs : List Char) : List Char × List Char :=
  let first := cs.takeWhile isScalarChar
  let rest := cs.dropWhile isScalarChar
  match (readDate? first).map Prod.snd, rest with
  | some [], ' ' :: d :: ds =>
    if d.isDigit then
      (first ++ ' ' :: (d :: ds).takeWhile isScalarChar, (d :: ds).dropWhile isScalarChar)
    else (first, rest)
  | _, _ => (first, rest)

/-- The value that a run of characters denotes. -/
def scalarOf? (cs : List Char) : Option Value :=
  if cs = "true".toList then some (.bool true)
  else if cs = "false".toList then some (.bool false)
  else
    ((readMoment? literalLimits cs).map Value.moment).or <|
      ((readInteger? cs).map Value.integer).or ((readNumber? cs).map Value.number)

/-- A single value, and what follows it. -/
def readScalar? (cs : List Char) : Option (Value × List Char) :=
  let (run, rest) := splitScalar cs
  (scalarOf? run).map (·, rest)

end EventLoop.Toml
