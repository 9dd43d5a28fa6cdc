import EventLoop.Number.Decimal

/-!
# Numbers of a script

A number is written in base sixteen, two or eight with a base prefix, or in
decimal notation; underscores between its digits mean nothing.
-/

namespace EventLoop.Script

/-- The base that the start of a number stands for, and the digits behind it. -/
def radixOf? : List Char → Option (Nat × List Char)
  | '0' :: mark :: digits =>
    if mark = 'x' ∨ mark = 'X' then some (16, digits)
    else if mark = 'b' ∨ mark = 'B' then some (2, digits)
    else if mark = 'o' ∨ mark = 'O' then some (8, digits)
    else none
  | _ => none

/-- The value of digits in a base, rounded at every digit. -/
def radixValue (base : Nat) (digits : List Char) : Float :=
  (digits.filterMap (Number.digitValue? base)).foldl
    (fun value digit => value * Float.ofNat base + Float.ofNat digit) 0

/-- The value of a number token. -/
def numberValue? (token : List Char) : Option Float :=
  let digits := token.filter (· ≠ '_')
  match radixOf? digits with
  | some (base, digits) => some (radixValue base digits)
  | none => (Number.Decimal.read? digits).map (Number.Decimal.toFloat false)

end EventLoop.Script
