import EventLoop.Number.Decimal

/-!
# Decimal notation of integers

Integers as configuration texts and arguments write them: decimal digits with
an optional sign, within the range of a fixed width.
-/

namespace EventLoop.Number

/-- The number of one or more decimal digits. -/
def readDigits? (cs : List Char) : Option Nat :=
  if cs.isEmpty ∨ ¬ cs.all Char.isDigit then none else some (natOfDigits 10 cs)

/-- The end of the range of natural numbers of 64 bits. -/
def natBound : Nat := 0x10000000000000000

/-- The end of the range of integers of 64 bits. -/
def intBound : Nat := 0x8000000000000000

/-- A natural number of 64 bits, with an optional plus sign. -/
def readNat? (s : String) : Option Nat :=
  let digits :=
    match s.toList with
    | '+' :: rest => rest
    | cs => cs
  (readDigits? digits).filter (· < natBound)

/-- An integer of 64 bits. -/
def readInt? (s : String) : Option Int :=
  match s.toList with
  | '-' :: rest => ((readDigits? rest).filter (· ≤ intBound)).map fun n => -(n : Int)
  | '+' :: rest => ((readDigits? rest).filter (· < intBound)).map Int.ofNat
  | cs => ((readDigits? cs).filter (· < intBound)).map Int.ofNat

end EventLoop.Number
