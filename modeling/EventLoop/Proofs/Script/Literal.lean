import EventLoop.Proofs.Peg.Language
import EventLoop.Script.Grammar
import EventLoop.Script.Literal

/-!
# Every number token has a value

A number token is spelled as the grammar says (`numberForm`).  Without its
underscores it is either a base with digits or a decimal, and all of it counts for the
value that it has (`exists_denotes`).
-/

namespace EventLoop.Number

/-- The text of an exponent: nothing, or a mark, perhaps a sign, and digits. -/
inductive IsExponent : List Char → Prop where
  | nil : IsExponent []
  | cons {mark : Char} (hmark : mark = 'e' ∨ mark = 'E') (sign digits : List Char)
      (hsign : sign = [] ∨ sign = ['+'] ∨ sign = ['-']) (hdigits : digits ≠ [])
      (hall : ∀ c ∈ digits, c.isDigit = true) : IsExponent (mark :: (sign ++ digits))

theorem IsExponent.isSome {tail : List Char} (h : IsExponent tail) :
    (exponentOf? tail).isSome = true := by
  cases h with
  | nil => rfl
  | @cons mark hmark sign digits hsign hdigits hall =>
      have hmarked : ¬ (mark ≠ 'e' ∧ mark ≠ 'E') := fun ⟨he, hE⟩ => hmark.elim he hE
      unfold exponentOf?
      dsimp only
      rw [if_neg hmarked]
      rcases hsign with rfl | rfl | rfl
      · obtain ⟨digit, others, rfl⟩ := List.exists_cons_of_ne_nil hdigits
        have hdigit := hall digit List.mem_cons_self
        have hminus : digit ≠ '-' := by rintro rfl; contradiction
        have hplus : digit ≠ '+' := by rintro rfl; contradiction
        simpa [hminus, hplus] using hall
      · simpa using ⟨hdigits, hall⟩
      · simpa using ⟨hdigits, hall⟩

/-- An exponent starts neither with a digit nor with a point. -/
theorem IsExponent.head {tail : List Char} (h : IsExponent tail) :
    tail.takeWhile Char.isDigit = [] ∧ tail.dropWhile Char.isDigit = tail ∧
      ∀ rest, tail ≠ '.' :: rest := by
  cases h with
  | nil => simp
  | cons hmark => rcases hmark with rfl | rfl <;> simp

/-- Digits with a point behind or before them, or none, and an exponent are a
decimal. -/
theorem read?_eq (whole fraction : List Char) {tail : List Char} {exponent : Int}
    (hwhole : ∀ c ∈ whole, c.isDigit = true) (hfraction : ∀ c ∈ fraction, c.isDigit = true)
    (htail : IsExponent tail) (hexponent : exponentOf? tail = some exponent) :
    (whole ≠ [] → Decimal.read? (whole ++ tail) = some ⟨natOfDigits 10 whole, exponent⟩) ∧
      (whole ≠ [] ∨ fraction ≠ [] → Decimal.read? (whole ++ '.' :: (fraction ++ tail)) =
        some ⟨natOfDigits 10 (whole ++ fraction), exponent - fraction.length⟩) := by
  obtain ⟨htake, hdrop, hpoint⟩ := htail.head
  have hpointTake : ('.' :: (fraction ++ tail)).takeWhile Char.isDigit = [] := rfl
  have hpointDrop : ('.' :: (fraction ++ tail)).dropWhile Char.isDigit =
      '.' :: (fraction ++ tail) := rfl
  constructor
  · intro hne
    rw [Decimal.read?, List.takeWhile_append_of_pos hwhole, List.dropWhile_append_of_pos hwhole,
      htake, hdrop, List.append_nil]
    split
    rename_i others rest heq
    split at heq
    · exact absurd ‹_› (hpoint _)
    · obtain ⟨rfl, rfl⟩ := Prod.mk.inj heq
      rw [if_neg (by simp [hne]), hexponent, List.append_nil]
      simp
  · intro hne
    have hsome : ¬ (whole.isEmpty = true ∧ fraction.isEmpty = true) := fun ⟨hw, hf⟩ =>
      hne.elim (· (List.isEmpty_iff.1 hw)) (· (List.isEmpty_iff.1 hf))
    have hfractionTake : (fraction ++ tail).takeWhile Char.isDigit = fraction := by
      rw [List.takeWhile_append_of_pos hfraction, htake, List.append_nil]
    have hfractionDrop : (fraction ++ tail).dropWhile Char.isDigit = tail := by
      rw [List.dropWhile_append_of_pos hfraction, hdrop]
    rw [Decimal.read?, List.takeWhile_append_of_pos hwhole, List.dropWhile_append_of_pos hwhole,
      hpointTake, hpointDrop, List.append_nil]
    change (if whole.isEmpty = true ∧ ((fraction ++ tail).takeWhile Char.isDigit).isEmpty = true
      then none
      else (exponentOf? ((fraction ++ tail).dropWhile Char.isDigit)).map fun exponent =>
        (⟨natOfDigits 10 (whole ++ (fraction ++ tail).takeWhile Char.isDigit),
          exponent - ((fraction ++ tail).takeWhile Char.isDigit).length⟩ : Decimal)) = _
    rw [hfractionTake, hfractionDrop, if_neg hsome, hexponent]
    rfl

end EventLoop.Number

namespace EventLoop.Script

open Peg

/-- Characters without the underscores among them. -/
def withoutSeparators (token : List Char) : List Char :=
  token.filter (· ≠ '_')

theorem withoutSeparators_append (first rest : List Char) :
    withoutSeparators (first ++ rest) = withoutSeparators first ++ withoutSeparators rest :=
  List.filter_append ..

/-- Groups of digits are one digit at least, and nothing but digits. -/
theorem digits_of_spells {isDigit : Char → Bool} (hunderscore : isDigit '_' = false)
    {read : List Char} (h : (digitsOf isDigit).Spells read) :
    withoutSeparators read ≠ [] ∧ ∀ c ∈ withoutSeparators read, isDigit c = true := by
  have hdigit (c : Char) (hc : isDigit c = true) : withoutSeparators [c] = [c] := by
    refine List.filter_eq_self.2 fun d hd => decide_eq_true ?_
    rintro rfl
    rw [List.mem_singleton.1 hd, hc] at hunderscore
    contradiction
  simp only [digitsOf, Peg.all, Expr.spells_seq, Expr.spells_char] at h
  obtain ⟨_, rest, ⟨c, hc, rfl⟩, hrest, rfl⟩ := h
  rw [withoutSeparators_append, hdigit c hc]
  refine ⟨by simp, List.forall_mem_cons.2 ⟨hc, ?_⟩⟩
  refine hrest.many_induction (motive := fun read => ∀ d ∈ withoutSeparators read, isDigit d = true)
    (List.forall_mem_nil _) fun group others hgroup hothers => ?_
  simp only [Expr.spells_seq, Expr.spells_optional, Expr.spells_char] at hgroup
  obtain ⟨underscore, _, hunder, ⟨d, hd, rfl⟩, rfl⟩ := hgroup
  rw [withoutSeparators_append, withoutSeparators_append, hdigit d hd]
  have hnothing : withoutSeparators underscore = [] := by
    rcases hunder with rfl | hunder
    · rfl
    · rw [Expr.spells_text.1 hunder]
      rfl
  rw [hnothing]
  exact List.forall_mem_cons.2 ⟨hd, hothers⟩

/-! ## Values -/

/-- What characters stand for as a number: digits of a base behind its prefix, each of them, from
the first to the last; or a decimal with an exponent or without one, and with a point or without
one. -/
inductive Denotes : List Char → Float → Prop where
  | radix {token digits : List Char} {base : Nat} {values : List Nat}
      (hbase : radixOf? token = some (base, digits)) (hne : digits ≠ [])
      (hvalues : digits.map (Number.digitValue? base) = values.map some) :
      Denotes token (values.foldl
        (fun value digit => value * Float.ofNat base + Float.ofNat digit) 0)
  | whole {digits tail : List Char} {exponent : Int} (hne : digits ≠ [])
      (hall : ∀ c ∈ digits, c.isDigit = true) (htail : Number.exponentOf? tail = some exponent) :
      Denotes (digits ++ tail)
        (Number.Decimal.toFloat false ⟨Number.natOfDigits 10 digits, exponent⟩)
  | point {digits fraction tail : List Char} {exponent : Int} (hne : digits ≠ [] ∨ fraction ≠ [])
      (hall : ∀ c ∈ digits, c.isDigit = true) (hfraction : ∀ c ∈ fraction, c.isDigit = true)
      (htail : Number.exponentOf? tail = some exponent) :
      Denotes (digits ++ '.' :: (fraction ++ tail))
        (Number.Decimal.toFloat false
          ⟨Number.natOfDigits 10 (digits ++ fraction), exponent - fraction.length⟩)

/-- A token has a value, which all of it counts for. -/
def HasValue (token : List Char) : Prop :=
  ∃ value, numberValue? token = some value ∧ Denotes (withoutSeparators token) value

theorem map_eq_map_some {α β : Type} {f : α → Option β} {elements : List α}
    (h : ∀ a ∈ elements, (f a).isSome = true) :
    elements.map f = (elements.filterMap f).map some := by
  induction elements with
  | nil => rfl
  | cons a rest ih =>
      obtain ⟨ha, hrest⟩ := List.forall_mem_cons.1 h
      obtain ⟨b, hb⟩ := Option.isSome_iff_exists.1 ha
      rw [List.map_cons, List.filterMap_cons_some hb, List.map_cons, hb, ih hrest]

/-- Characters of a kind are digits of a base. -/
def DigitsIn (base : Nat) (isDigit : Char → Bool) : Prop :=
  ∀ c, isDigit c = true → (Number.digitValue? base c).isSome = true

theorem toNat_le_iff {c d : Char} : c ≤ d ↔ c.toNat ≤ d.toNat :=
  UInt32.le_iff_toNat_le

/-- Decimal digits up to that of a base are digits of the base. -/
theorem isSome_digitValue? {base : Nat} {c : Char} (hzero : '0' ≤ c) (hnine : c ≤ '9')
    (hbase : c.toNat - '0'.toNat < base) : (Number.digitValue? base c).isSome = true := by
  have hdigit : c.isDigit = true :=
    Bool.and_eq_true_iff.2 ⟨decide_eq_true hzero, decide_eq_true hnine⟩
  unfold Number.digitValue?
  dsimp only
  rw [if_pos hdigit, Option.filter_some, if_pos (decide_eq_true hbase)]
  rfl

theorem digitsIn_hex : DigitsIn 16 isHexDigit := by
  intro c hc
  by_cases hdigit : c.isDigit = true
  · obtain ⟨hzero, hnine⟩ := Bool.and_eq_true_iff.1 hdigit
    have hle : c.toNat ≤ 57 := toNat_le_iff.1 (of_decide_eq_true hnine)
    refine isSome_digitValue? (of_decide_eq_true hzero) (of_decide_eq_true hnine) ?_
    change c.toNat - 48 < 16
    omega
  · simp only [isHexDigit, hdigit, Bool.false_or, Bool.or_eq_true, Bool.and_eq_true,
      decide_eq_true_eq] at hc
    unfold Number.digitValue?
    dsimp only
    rw [if_neg hdigit]
    split
    · rename_i hlower
      have hle : c.toNat ≤ 102 := toNat_le_iff.1 hlower.2
      have hsmall : c.toNat - 'a'.toNat + 10 < 16 := by
        change c.toNat - 97 + 10 < 16
        omega
      rw [Option.filter_some, if_pos (decide_eq_true hsmall)]
      rfl
    · rename_i hlower
      have hupper := hc.resolve_left hlower
      have hle : c.toNat ≤ 70 := toNat_le_iff.1 hupper.2
      have hsmall : c.toNat - 'A'.toNat + 10 < 16 := by
        change c.toNat - 65 + 10 < 16
        omega
      rw [if_pos hupper, Option.filter_some, if_pos (decide_eq_true hsmall)]
      rfl

theorem digitsIn_binary : DigitsIn 2 fun c => c = '0' || c = '1' := by
  intro c hc
  simp only [Bool.or_eq_true, decide_eq_true_eq] at hc
  rcases hc with rfl | rfl <;> rfl

theorem digitsIn_octal : DigitsIn 8 fun c => '0' ≤ c && c ≤ '7' := by
  intro c hc
  simp only [Bool.and_eq_true, decide_eq_true_eq] at hc
  obtain ⟨hzero, hseven⟩ := hc
  have hle : c.toNat ≤ 55 := toNat_le_iff.1 hseven
  refine isSome_digitValue? hzero (toNat_le_iff.2 ?_) ?_
  · change c.toNat ≤ 57
    omega
  · change c.toNat - 48 < 8
    omega

/-- The digits of a base have a value. -/
theorem hasValue_of_radix {isDigit : Char → Bool} {marked group : List Char} {base : Nat}
    (hradix : ∀ rest, radixOf? (withoutSeparators marked ++ rest) = some (base, rest))
    (hunderscore : isDigit '_' = false)
    (hdigit : DigitsIn base isDigit)
    (hgroup : (digitsOf isDigit).Spells group) : HasValue (marked ++ group) := by
  obtain ⟨hne, hall⟩ := digits_of_spells hunderscore hgroup
  have hbase : radixOf? (withoutSeparators (marked ++ group)) =
      some (base, withoutSeparators group) := by
    rw [withoutSeparators_append, hradix]
  refine ⟨_, ?_, .radix hbase hne (map_eq_map_some fun c hc => hdigit c (hall c hc))⟩
  rw [withoutSeparators] at hbase
  simp only [numberValue?, hbase]
  rfl

/-- The marks behind a zero that tell a base. -/
def radixMarks : List Char :=
  ['x', 'X', 'b', 'B', 'o', 'O']

theorem radixOf?_eq_none {token : List Char} (h : ∀ c ∈ token, c ∉ radixMarks) :
    radixOf? token = none := by
  unfold radixOf?
  split
  · rename_i mark digits
    have hmark := h mark (List.mem_cons_of_mem _ List.mem_cons_self)
    simp only [radixMarks, List.mem_cons, List.not_mem_nil, or_false, not_or] at hmark
    simp [hmark]
  · rfl

theorem not_mem_radixMarks {c : Char} (h : c.isDigit = true) : c ∉ radixMarks := by
  intro hc
  have hall : ∀ d ∈ radixMarks, d.isDigit = false := by simp [radixMarks]
  rw [hall c hc] at h
  contradiction

/-- A decimal without its underscores has the value that reading gives. -/
theorem hasValue_of_read {token : List Char} {value : Number.Decimal}
    (hmarks : ∀ c ∈ withoutSeparators token, c ∉ radixMarks)
    (hread : Number.Decimal.read? (withoutSeparators token) = some value)
    (h : Denotes (withoutSeparators token) (value.toFloat false)) : HasValue token := by
  refine ⟨_, ?_, h⟩
  have hbase := radixOf?_eq_none hmarks
  rw [withoutSeparators] at hbase hread
  simp only [numberValue?, hbase, hread, Option.map_some]

theorem not_mem_radixMarks_of_isExponent {tail : List Char} (h : Number.IsExponent tail) :
    ∀ c ∈ tail, c ∉ radixMarks := by
  cases h with
  | nil => exact List.forall_mem_nil _
  | cons hmark sign digits hsign _ hall =>
      refine List.forall_mem_cons.2 ⟨?_, List.forall_mem_append.2 ⟨?_, ?_⟩⟩
      · rcases hmark with rfl | rfl <;> simp [radixMarks]
      · rcases hsign with rfl | rfl | rfl <;> simp [radixMarks]
      · exact fun c hc => not_mem_radixMarks (hall c hc)

section Decimals

variable {token digits fraction tail : List Char} (hall : ∀ c ∈ digits, c.isDigit = true)
  (htail : Number.IsExponent tail)

include hall htail

theorem hasValue_of_whole (htoken : withoutSeparators token = digits ++ tail) (hne : digits ≠ []) :
    HasValue token := by
  obtain ⟨exponent, hexponent⟩ := Option.isSome_iff_exists.1 htail.isSome
  have hread := (Number.read?_eq digits [] hall (List.forall_mem_nil _) htail hexponent).1 hne
  have hdenotes := Denotes.whole hne hall hexponent
  rw [← htoken] at hread hdenotes
  refine hasValue_of_read ?_ hread hdenotes
  rw [htoken]
  exact List.forall_mem_append.2
    ⟨fun c hc => not_mem_radixMarks (hall c hc), not_mem_radixMarks_of_isExponent htail⟩

theorem hasValue_of_point (htoken : withoutSeparators token = digits ++ '.' :: (fraction ++ tail))
    (hne : digits ≠ [] ∨ fraction ≠ []) (hfraction : ∀ c ∈ fraction, c.isDigit = true) :
    HasValue token := by
  obtain ⟨exponent, hexponent⟩ := Option.isSome_iff_exists.1 htail.isSome
  have hread := (Number.read?_eq digits fraction hall hfraction htail hexponent).2 hne
  have hdenotes := Denotes.point hne hall hfraction hexponent
  rw [← htoken] at hread hdenotes
  refine hasValue_of_read ?_ hread hdenotes
  rw [htoken]
  exact List.forall_mem_append.2 ⟨fun c hc => not_mem_radixMarks (hall c hc),
    List.forall_mem_cons.2 ⟨by decide, List.forall_mem_append.2
      ⟨fun c hc => not_mem_radixMarks (hfraction c hc), not_mem_radixMarks_of_isExponent htail⟩⟩⟩

end Decimals

theorem isExponent_of_spells {tail : List Char}
    (h : (Peg.Expr.optional (Peg.all [oneOf ["e", "E"], .optional (oneOf ["+", "-"]), digits])
      : Peg.Expr Rule).Spells tail) : Number.IsExponent (withoutSeparators tail) := by
  simp only [Peg.all, oneOf, literal, Expr.spells_optional, Expr.spells_seq, Expr.spells_alt,
    Expr.spells_text] at h
  rcases h with rfl | ⟨mark, _, hmark, ⟨sign, group, hsign, hgroup, rfl⟩, rfl⟩
  · exact .nil
  · obtain ⟨hne, hall⟩ := digits_of_spells rfl hgroup
    rw [withoutSeparators_append, withoutSeparators_append]
    have hsigns : withoutSeparators sign = [] ∨ withoutSeparators sign = ['+'] ∨
        withoutSeparators sign = ['-'] := by
      rcases hsign with rfl | rfl | rfl
      · exact .inl rfl
      · exact .inr (.inl rfl)
      · exact .inr (.inr rfl)
    rcases hmark with rfl | rfl
    · exact .cons (.inl rfl) (withoutSeparators sign) _ hsigns hne hall
    · exact .cons (.inr rfl) (withoutSeparators sign) _ hsigns hne hall

/-- **Every number token has a value**, and all of it counts for this value. -/
theorem exists_denotes {token : List Char} (h : numberForm.Spells token) : HasValue token := by
  simp only [numberForm, Peg.all, oneOf, literal, Expr.spells_alt, Expr.spells_seq,
    Expr.spells_text] at h
  rcases h with ⟨mark, group, hmark, hgroup, rfl⟩ | ⟨mark, group, hmark, hgroup, rfl⟩ |
    ⟨mark, group, hmark, hgroup, rfl⟩ | ⟨mantissa, tail, hmantissa, htail, rfl⟩
  · rcases hmark with rfl | rfl <;>
      exact hasValue_of_radix (fun _ => rfl) rfl digitsIn_hex hgroup
  · rcases hmark with rfl | rfl <;>
      exact hasValue_of_radix (fun _ => rfl) rfl digitsIn_binary hgroup
  · rcases hmark with rfl | rfl <;>
      exact hasValue_of_radix (fun _ => rfl) rfl digitsIn_octal hgroup
  · have hexponent := isExponent_of_spells htail
    rcases hmantissa with ⟨whole, others, hwhole, hothers, rfl⟩ |
      ⟨point, fraction, rfl, hfraction, rfl⟩
    · obtain ⟨hne, hall⟩ := digits_of_spells rfl hwhole
      rcases Expr.spells_optional.1 hothers with rfl | hothers
      · refine hasValue_of_whole hall hexponent ?_ hne
        rw [List.append_nil, withoutSeparators_append]
      · obtain ⟨point, fraction, hpoint, hfraction, rfl⟩ := Expr.spells_seq.1 hothers
        obtain rfl := Expr.spells_text.1 hpoint
        obtain ⟨-, hallFraction⟩ := digits_of_spells rfl hfraction
        refine hasValue_of_point hall hexponent ?_ (.inl hne) hallFraction
        rw [withoutSeparators_append, withoutSeparators_append, withoutSeparators_append,
          List.append_assoc, List.append_assoc]
        rfl
    · obtain ⟨hne, hall⟩ := digits_of_spells rfl hfraction
      refine hasValue_of_point (List.forall_mem_nil _) hexponent ?_ (.inr hne) hall
      rw [withoutSeparators_append, withoutSeparators_append, List.append_assoc]
      rfl

theorem isSome_numberValue? {token : List Char} (h : numberForm.Spells token) :
    (numberValue? token).isSome = true := by
  obtain ⟨value, hvalue, -⟩ := exists_denotes h
  rw [hvalue]
  rfl

end EventLoop.Script
