import EventLoop.Number.Integer

/-!
# Moments of TOML

A moment is a date, a time, or both, and then perhaps with an offset.  It is
kept as the text that it is normally written as (`readMoment?`): a capital `T`
between date and time, no zeros at the end of a fraction, and an offset of less
than an hour's minutes.

Some texts are read as moments, too.  They are held to wider limits than the
moments of a document, whose hours end at 23 (`MomentLimits`).
-/

namespace EventLoop.Toml

/-- The largest numbers that are allowed in a moment. -/
structure MomentLimits where
  hour : Nat
  offsetHours : Nat
  offsetMinutes : Nat

/-- The limits of a moment that a document gives as such. -/
def literalLimits : MomentLimits := ⟨23, 23, 59⟩

/-- The limits of a moment that is given as a text. -/
def textLimits : MomentLimits := ⟨24, 99, 99⟩

/-- Two digits of a number in a range, and what follows them. -/
def readPair? (low high : Nat) : List Char → Option (Nat × List Char)
  | a :: b :: cs => do
    let n ← Number.readDigits? [a, b]
    if low ≤ n ∧ n ≤ high then some (n, cs) else none
  | _ => none

/-- What follows a character, if it stands here. -/
def expect? (c : Char) : List Char → Option (List Char)
  | d :: cs => if c = d then some cs else none
  | [] => none

/-- A number as two digits. -/
def pairText (n : Nat) : List Char :=
  [Nat.digitChar (n / 10), Nat.digitChar (n % 10)]

/-- The number of days of a month. -/
def daysOf (year month : Nat) : Nat :=
  if month = 2 then
    if year % 4 = 0 ∧ (year % 100 ≠ 0 ∨ year % 400 = 0) then 29 else 28
  else if month = 4 ∨ month = 6 ∨ month = 9 ∨ month = 11 then 30
  else 31

/-- A date, and what follows it. -/
def readDate? (cs : List Char) : Option (List Char × List Char) := do
  let year ← Number.readDigits? (cs.take 4)
  let (month, rest) ← readPair? 1 12 (← expect? '-' (cs.drop 4))
  let (day, rest) ← readPair? 1 (daysOf year month) (← expect? '-' rest)
  return (cs.take 4 ++ '-' :: pairText month ++ '-' :: pairText day, rest)

/-- The fraction of a second, and what follows it: nine digits count, and zeros
at the end are not written. -/
def readSecondFraction? : List Char → Option (List Char × List Char)
  | '.' :: cs =>
    let digits := cs.takeWhile Char.isDigit
    let kept := ((digits.take 9).reverse.dropWhile (· = '0')).reverse
    if digits.isEmpty then none
    else some (if kept.isEmpty then [] else '.' :: kept, cs.dropWhile Char.isDigit)
  | cs => some ([], cs)

/-- A time, and what follows it. -/
def readTime? (limits : MomentLimits) (cs : List Char) : Option (List Char × List Char) := do
  let (hour, cs) ← readPair? 0 limits.hour cs
  let (minute, cs) ← readPair? 0 59 (← expect? ':' cs)
  let (second, cs) ← readPair? 0 60 (← expect? ':' cs)
  let (fraction, cs) ← readSecondFraction? cs
  return (pairText hour ++ ':' :: pairText minute ++ ':' :: pairText second ++ fraction, cs)

/-- The offset of a moment that has one, to the end of the text: a day at
most. -/
def readOffset? (limits : MomentLimits) : List Char → Option (List Char)
  | [] => some []
  | ['Z'] | ['z'] => some ['Z']
  | sign :: cs => do
    let (hours, cs) ← readPair? 0 limits.offsetHours cs
    let (minutes, cs) ← readPair? 0 limits.offsetMinutes (← expect? ':' cs)
    let offset := 60 * hours + minutes
    if ¬ cs.isEmpty ∨ (sign ≠ '+' ∧ sign ≠ '-') ∨ 60 * 24 < offset then none
    else
      let sign := if offset = 0 then '+' else sign
      some (sign :: pairText (offset / 60) ++ ':' :: pairText (offset % 60))

/-- A moment: a date, a time, or a date and a time. -/
def readMoment? (limits : MomentLimits) (cs : List Char) : Option String :=
  match readDate? cs with
  | some (date, []) => some (String.ofList date)
  | some (date, mark :: rest) => do
    let (time, rest) ← readTime? limits rest
    let offset ← readOffset? limits rest
    if mark = 'T' ∨ mark = 't' ∨ mark = ' ' then
      some (String.ofList (date ++ 'T' :: time ++ offset))
    else none
  | none =>
    match readTime? limits cs with
    | some (time, []) => some (String.ofList time)
    | _ => none

end EventLoop.Toml
