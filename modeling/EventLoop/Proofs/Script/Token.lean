import EventLoop.Proofs.Script.Formula
import EventLoop.Proofs.Script.Start

/-!
# Tokens

A name is read to its end, where no name goes on (`matches_identifier`), and a quoted text
to its last quote (`matches_string`).  What is read between the quotes of a text is the text
again (`Text.unescape_escape`).  An operator is read where it is followed by a space, after
those that are tried before it have been refused (`matches_operator`).
-/

namespace EventLoop.Text

/-- A text is read back from between its quotes. -/
theorem unescape_escape (text : List Char) : unescape (escape text) = text := by
  induction text with
  | nil => rw [escape, unescape]
  | cons c text ih =>
      rw [escape]
      split
      next hescaped =>
        rw [unescape, ih]
        rcases hescaped with rfl | rfl <;> rfl
      next hplain =>
        obtain ⟨hbackslash, -⟩ := not_or.1 hplain
        rw [unescape, ih]
        · exact fun hc _ => hbackslash hc
        · exact fun _ _ hc _ => hbackslash hc

end EventLoop.Text

namespace EventLoop.Script

open Peg

variable {place stop : Cursor}

/-! ## Names -/

/-- A rule is recorded with what its body matches. -/
theorem matches_rule (mode : Mode) (r : Rule) (hmode : mode ≠ .token) (hkind : kind r ≠ .hidden)
    {result : Match Rule} (h : Matches grammar ((kind r).modeIn mode) (body r) place result) :
    Matches grammar mode (.rule r) place
      ⟨result.stop, [.node r place result.stop result.trees]⟩ := by
  have hrule : Matches grammar mode (.rule r) place _ := .rule h
  have hrecorded : ¬ (grammar.kind r = .hidden ∨ mode = .token) := not_or.2 ⟨hkind, hmode⟩
  rwa [Grammar.record, if_neg hrecorded] at hrule

/-- Characters of a class are read up to a character that is not of the class. -/
theorem matches_chars {accepts : Char → Bool} {text : List Char}
    (htext : ∀ c ∈ text, accepts c = true) (hdrop : place.drop? text = some stop)
    (hend : stop.next? accepts = none) :
    Matches grammar .token (.many (.char accepts)) place ⟨stop, []⟩ := by
  induction text generalizing place with
  | nil =>
      obtain rfl := Option.some.inj hdrop
      exact .noMore (.char_none hend)
  | cons c text ih =>
      obtain ⟨hc, hrest⟩ := List.forall_mem_cons.1 htext
      obtain ⟨offset, read, rfl, hbehind⟩ := Cursor.drop?_cons_eq_some hdrop
      have hfirst : Matches grammar .token (.char accepts) ⟨offset, c :: read⟩
          ⟨⟨offset + c.utf8Size, read⟩, []⟩ := .char (if_pos hc)
      obtain ⟨last, hmany, hlast⟩ := hfirst.many_cons (skip_skip .token) (ih hrest hbehind)
      obtain rfl : last = stop := hlast
      exact hmany

/-- A name is read to its end. -/
theorem matches_name {text : List Char} (hname : IsName text) (hdrop : place.drop? text = some stop)
    (hend : startsInName stop.rest = false) : Matches grammar .token name place ⟨stop, []⟩ := by
  cases text with
  | nil => contradiction
  | cons c text =>
      obtain ⟨offset, read, rfl, hbehind⟩ := Cursor.drop?_cons_eq_some hdrop
      have hfirst : Matches grammar .token (.char isNameStart) ⟨offset, c :: read⟩
          ⟨⟨offset + c.utf8Size, read⟩, []⟩ := .char (if_pos hname.1)
      exact .seq hfirst (matches_chars hname.2 hbehind (next?_of_startsInName hend))

theorem matches_identifierName {text : List Char} (hname : IsName text)
    (hdrop : place.drop? text = some stop) (hend : startsInName stop.rest = false) :
    Matches grammar .spaced (.rule .identifierName) place
      ⟨stop, [.node .identifierName place stop []]⟩ :=
  matches_rule .spaced .identifierName nofun nofun (matches_name hname hdrop hend)

/-- A name that is no keyword is an identifier. -/
theorem matches_identifier {text : String} (hname : IsIdentifier text)
    (hdrop : place.drop? text.toList = some stop) (hend : startsInName stop.rest = false) :
    Matches grammar .spaced (.rule .identifier) place ⟨stop, [.node .identifier place stop []]⟩ := by
  obtain ⟨hread, -⟩ := Cursor.drop?_eq_some_iff.1 hdrop
  have hreserved : Derives grammar .token (.rule .reserved) place none := by
    refine .rule_none (refused_word (fun _ h => h) hname hread hend rfl fun result h => ?_)
    obtain ⟨inner, hinner, rfl⟩ := h.of_rule
    exact exists_word hinner
  exact matches_rule .spaced .identifier nofun nofun
    (.seq (.unless hreserved) (matches_name hname.1 hdrop hend))

/-- A rule for words reads a word, if no word before it starts like it. -/
theorem matches_word {r : Rule} {words : List String} (hwords : wordsOf? r = some words)
    {word : String} (hmem : word ∈ words) (hname : IsName word.toList)
    (hbefore : ∀ other ∈ words.takeWhile (· ≠ word),
      (Start.keyword word).misses other.toList = true)
    (hdrop : place.drop? word.toList = some stop) (hend : startsInName stop.rest = false) :
    Matches grammar .spaced (.rule r) place ⟨stop, [.node r place stop []]⟩ := by
  obtain ⟨hkind, hbody⟩ := body_of_wordsOf? hwords
  obtain ⟨behind, hsplit⟩ := exists_split_of_mem hmem
  have hat := Start.at_keyword hname hdrop hend
  have hword : Matches grammar .token (oneOf (words.map literal)) place ⟨stop, []⟩ := by
    rw [hsplit, List.map_append, List.map_cons]
    refine .oneOf (fun f hf => ?_) (.text hdrop)
    obtain ⟨other, hother, rfl⟩ := List.mem_map.1 hf
    exact .text_none (Start.drop?_of_misses hat (hbefore other hother))
  have hwordEnd : Matches grammar .token wordEnd stop ⟨stop, []⟩ :=
    .unless (.char_none (next?_of_startsInName hend))
  have hrule : Matches grammar ((kind r).modeIn .spaced) (body r) place ⟨stop, []⟩ := by
    rw [hkind, hbody]
    exact .seq hword hwordEnd
  exact matches_rule .spaced r nofun (by rw [hkind]; nofun) hrule

/-! ## Quoted texts -/

/-- The characters between quotes are read up to a quote or the end of the line. -/
theorem matches_sqChars {text : List Char} (hline : ∀ c ∈ text, isLineEnd c = false)
    (hdrop : place.drop? (Text.escape text) = some stop) {last : Char} {rest : List Char}
    (hend : stop.rest = last :: rest) (hlast : last = '\x27' ∨ isLineEnd last = true) :
    Matches grammar .token (stringChars '\x27') place ⟨stop, []⟩ := by
  induction text generalizing place with
  | nil =>
      obtain rfl := Option.some.inj hdrop
      obtain ⟨offset, read⟩ := place
      obtain rfl : read = last :: rest := hend
      have hescape : last ≠ '\\' := by
        rintro rfl
        exact absurd hlast (by decide)
      refine .noMore (.altSecond (.char_none (if_neg ?_)) (.seqRefused (.text_none ?_)))
      · rcases hlast with rfl | hlast
        · decide
        · simp [hlast]
      · exact if_neg (Ne.symm hescape)
  | cons c text ih =>
      obtain ⟨hc, hrest⟩ := List.forall_mem_cons.1 hline
      have hround {first : Match Rule} (hfirst : Matches grammar .token
          (oneOf [charBut fun c => c = '\x27' || c = '\\' || isLineEnd c, escapePair]) place first)
          (hstop : first.stop.drop? (Text.escape text) = some stop) (htrees : first.trees = []) :
          Matches grammar .token (stringChars '\x27') place ⟨stop, []⟩ := by
        obtain ⟨last, hmany, hlast⟩ := hfirst.many_cons (skip_skip .token) (ih hrest hstop)
        obtain rfl : last = stop := hlast
        rwa [htrees] at hmany
      rw [Text.escape] at hdrop
      split at hdrop
      next hescaped =>
        obtain ⟨offset, _, rfl, hescape⟩ := Cursor.drop?_cons_eq_some hdrop
        obtain ⟨_, read, heq, hbehind⟩ := Cursor.drop?_cons_eq_some hescape
        obtain ⟨rfl, rfl⟩ := Cursor.mk.inj heq
        have hbackslash : Matches grammar .token "\\" ⟨offset, '\\' :: c :: read⟩
            ⟨⟨offset + '\\'.utf8Size, c :: read⟩, []⟩ := .text rfl
        exact hround (.altSecond (.char_none rfl) (.seq hbackslash (.char rfl))) hbehind rfl
      next hplain =>
        obtain ⟨offset, read, rfl, hbehind⟩ := Cursor.drop?_cons_eq_some hdrop
        have hchar : Cursor.next? (fun c => !(c = '\x27' || c = '\\' || isLineEnd c))
            ⟨offset, c :: read⟩ = some ⟨offset + c.utf8Size, read⟩ :=
          if_pos (by simpa [hc, and_comm] using hplain)
        exact hround (.altFirst _ (.char hchar)) hbehind rfl

/-- A quoted text is read to its last quote. -/
theorem matches_string {value : String} (hline : ∀ c ∈ value.toList, isLineEnd c = false)
    (hdrop : place.drop? (Text.quote value).toList = some stop) :
    ∃ first last, Matches grammar .spaced (.rule .string) place
        ⟨stop, [.node .string place stop [.node .sqChars first last []]]⟩ ∧
      first.textTo last = Text.escape value.toList := by
  rw [Text.quote, String.toList_ofList] at hdrop
  obtain ⟨offset, read, rfl, hbehind⟩ := Cursor.drop?_cons_eq_some hdrop
  obtain ⟨last, hchars, hquote⟩ := Cursor.drop?_append_eq_some hbehind
  obtain ⟨hread, hoffset⟩ := Cursor.drop?_eq_some_iff.1 hchars
  obtain ⟨lastOffset, rest, rfl, hend⟩ := Cursor.drop?_cons_eq_some hquote
  obtain rfl := Option.some.inj hend
  refine ⟨_, _, ?_, Cursor.textTo_eq hread hoffset⟩
  have hinner := matches_rule .joined .sqChars nofun nofun (matches_sqChars hline hchars rfl (.inl rfl))
  have hquote : Matches grammar .joined "\x27" ⟨offset, '\x27' :: read⟩
      ⟨⟨offset + '\x27'.utf8Size, read⟩, []⟩ := .text rfl
  have hclose : Matches grammar .joined "\x27" ⟨lastOffset, '\x27' :: rest⟩
      ⟨⟨lastOffset + '\x27'.utf8Size, rest⟩, []⟩ := .text rfl
  exact matches_rule .spaced .string nofun nofun
    (.altSecond (.seqRefused (.text_none rfl)) (.seq hquote (.seq hinner hclose)))

/-! ## Operators -/

/-- The token of an operator. -/
def BinaryOp.rule : BinaryOp → Rule
  | .add => .opAdd
  | .sub => .opSub
  | .mul => .opMul
  | .div => .opDiv
  | .mod => .opMod
  | .pow => .opPow
  | .eq => .opEq
  | .strictEq => .opSeq
  | .ne => .opNe
  | .strictNe => .opSne
  | .lt => .opLt
  | .lte => .opLte
  | .gt => .opGt
  | .gte => .opGte
  | .instanceOf => .opInstanceof
  | .isIn => .opIn
  | .and => .opAnd
  | .or => .opOr
  | .nullish => .opNullish

/-- The operators of a precedence that group to the left, in the order in which they are
tried. -/
def operatorsAt : Nat → List Rule
  | 1 => [.opNullish]
  | 2 => [.opOr]
  | 3 => [.opAnd]
  | 4 => [.opSeq, .opSne, .opEq, .opNe]
  | 5 => [.opLte, .opGte, .opLt, .opGt, .opInstanceof, .opIn]
  | 6 => [.opAdd, .opSub]
  | 7 => [.opMul, .opDiv, .opMod]
  | _ => []

/-- The token of an operator before its operand. -/
def UnaryOp.rule : UnaryOp → Rule
  | .not => .opNot
  | .neg => .opNeg
  | .plus => .opPlus
  | .typeof => .opTypeof

/-- The operators before an operand, in the order in which they are tried. -/
def signs : List Rule :=
  [.opInc, .opDec, .opNot, .opNeg, .opPlus, .opTypeof]

@[simp]
theorem binaryOpOf?_rule (op : BinaryOp) : binaryOpOf? op.rule = some op := by
  cases op <;> rfl

/-- An operator is read where a space follows it. -/
theorem matches_operator (op : BinaryOp) {rest : List Char}
    (hdrop : place.drop? op.symbol.toList = some stop) (hspace : stop.rest = ' ' :: rest) :
    Matches grammar .spaced (.rule op.rule) place ⟨stop, [.node op.rule place stop []]⟩ := by
  have htext : Matches grammar .token (.text op.symbol.toList) place ⟨stop, []⟩ := .text hdrop
  obtain ⟨offset, read⟩ := stop
  obtain rfl : read = ' ' :: rest := hspace
  have hword : Matches grammar .token wordEnd ⟨offset, ' ' :: rest⟩ ⟨⟨offset, ' ' :: rest⟩, []⟩ :=
    .unless (.char_none rfl)
  have hbody : Matches grammar ((kind op.rule).modeIn .spaced) (body op.rule) place
      ⟨⟨offset, ' ' :: rest⟩, []⟩ := by
    cases op with
    | nullish | or | and | eq | strictEq | ne | strictNe | lt | lte | gt | gte => exact htext
    | instanceOf | isIn => exact .seq htext hword
    | pow | mod => exact .seq htext (.unless (.text_none rfl))
    | add | sub | mul => exact .seq htext (.unless (.altSecond (.text_none rfl) (.text_none rfl)))
    | div =>
        exact .seq htext (.unless (.altSecond (.text_none rfl)
          (.altSecond (.text_none rfl) (.text_none rfl))))
  exact matches_rule .spaced op.rule nofun (by cases op <;> nofun) hbody

theorem at_spaced {symbol : List Char} (hsettled : skipLayout place = place)
    (hdrop : place.drop? symbol = some stop) {rest : List Char} (hspace : stop.rest = ' ' :: rest) :
    (Start.text (symbol ++ [' '])).At place := by
  obtain ⟨hread, -⟩ := Cursor.drop?_eq_some_iff.1 hdrop
  refine ⟨⟨rest, ?_⟩, hsettled⟩
  rw [hread, hspace, List.append_assoc]
  rfl

/-- An operator that groups to the left is read where a space follows it. -/
theorem matches_operators (op : BinaryOp) (hop : op ≠ .pow) (hsettled : skipLayout place = place)
    {rest : List Char} (hdrop : place.drop? op.symbol.toList = some stop)
    (hspace : stop.rest = ' ' :: rest) :
    Matches grammar .spaced (oneOf ((operatorsAt op.precedence).map .rule)) place
      ⟨stop, [.node op.rule place stop []]⟩ := by
  have hat := at_spaced hsettled hdrop hspace
  have hmem : op.rule ∈ operatorsAt op.precedence := by
    cases op <;> first | contradiction | decide
  have hrefuses : ∀ other ∈ (operatorsAt op.precedence).takeWhile (· ≠ op.rule),
      (Start.text (op.symbol.toList ++ [' '])).refuses (.rule other) = true := by
    cases op <;> first | contradiction | decide
  exact hat.choose _ hmem hrefuses (matches_operator op hdrop hspace)

/-- An operator is read where its operand does not start like the rest of a longer one. -/
theorem matches_sign (op : UnaryOp) (hdrop : place.drop? op.symbol.toList = some stop)
    {start : Start} (hat : start.At stop)
    (hmisses : (['+', '-', '='].all fun c => start.misses [c]) = true) :
    ∃ last, Matches grammar .spaced (oneOf (signs.map .rule)) place
        ⟨last, [.node op.rule place last []]⟩ ∧ skipLayout last = stop := by
  have hnext {c : Char} (hc : c ∈ ['+', '-', '=']) {d : Char} (hread : place.drop? [d] = some stop) :
      place.drop? [d, c] = none := by
    have hsplit : place.drop? ([d] ++ [c]) = none := by
      rw [Cursor.drop?_append, hread]
      exact Start.drop?_of_misses hat (List.all_eq_true.1 hmisses c hc)
    exact hsplit
  -- a sign is doubled, or compares, if its operand starts like the rest of such an operator
  cases op with
  | not =>
      have hsign : (Start.text ['!']).At place := Start.at_text rfl hdrop
      have hequals : Derives grammar .token "=" stop none :=
        .text_none (Start.drop?_of_misses hat (List.all_eq_true.1 hmisses '=' (by decide)))
      have hmatch : Matches grammar .spaced (.rule .opNot) place
          ⟨stop, [.node .opNot place stop []]⟩ :=
        matches_rule .spaced .opNot nofun nofun (.seq (.text hdrop) (.unless hequals))
      exact ⟨stop, hsign.choose signs (by decide) (by decide) hmatch, hat.settled⟩
  | neg =>
      have hsign : (Start.text ['-']).At place := Start.at_text rfl hdrop
      have hdouble : Derives grammar .spaced (.rule .opDec) place none :=
        .rule_none (.text_none (hnext (by decide) hdrop))
      have hmatch : Matches grammar .spaced (.rule .opNeg) place
          ⟨stop, [.node .opNeg place stop []]⟩ :=
        matches_rule .spaced .opNeg nofun nofun (.text hdrop)
      exact ⟨stop, .altSecond (hsign.refused (by decide)) (.altSecond hdouble
        (.altSecond (hsign.refused (by decide)) (.altFirst _ hmatch))), hat.settled⟩
  | plus =>
      have hsign : (Start.text ['+']).At place := Start.at_text rfl hdrop
      have hdouble : Derives grammar .spaced (.rule .opInc) place none :=
        .rule_none (.text_none (hnext (by decide) hdrop))
      have hmatch : Matches grammar .spaced (.rule .opPlus) place
          ⟨stop, [.node .opPlus place stop []]⟩ :=
        matches_rule .spaced .opPlus nofun nofun (.text hdrop)
      exact ⟨stop, .altSecond hdouble (hsign.choose signs.tail (by decide) (by decide) hmatch),
        hat.settled⟩
  | typeof =>
      have hword : place.drop? ("typeof".toList ++ ' ' :: []) = some stop := hdrop
      have hsign : (Start.keyword "typeof").At place := Start.at_keyword_space (by decide) hword
      obtain ⟨last, hlast, hspace⟩ := Cursor.drop?_append_eq_some hword
      obtain ⟨offset, rest, rfl, hstop⟩ := Cursor.drop?_cons_eq_some hspace
      obtain rfl := Option.some.inj hstop
      have hmatch := matches_word (r := .opTypeof) rfl (List.mem_singleton_self "typeof")
        (by decide) (by decide) hlast rfl
      exact ⟨_, hsign.choose signs (by decide) (by decide) hmatch,
        (skipLayout_space offset rest).trans hat.settled⟩

/-- The token of an operator that counts up or down. -/
def UpdateOp.rule : UpdateOp → Rule
  | .increment => .opInc
  | .decrement => .opDec

/-- An operator that counts up or down is read before its operand. -/
theorem matches_counter (op : UpdateOp) (hdrop : place.drop? op.symbol.toList = some stop) :
    Matches grammar .spaced (oneOf (signs.map .rule)) place
      ⟨stop, [.node op.rule place stop []]⟩ := by
  cases op with
  | increment => exact .altFirst _ (matches_rule .spaced .opInc nofun nofun (.text hdrop))
  | decrement =>
      have hat : (Start.text ['-', '-']).At place := Start.at_text rfl
        (by rwa [List.append_nil] : place.drop? (['-', '-'] ++ []) = some stop)
      exact hat.choose signs (by decide) (by decide)
        (matches_rule .spaced .opDec nofun nofun (.text hdrop))

/-- An operator that counts up or down is read behind its operand. -/
theorem matches_updateSuffix (op : UpdateOp) (hdrop : place.drop? op.symbol.toList = some stop) :
    Matches grammar .spaced (.rule .updateSuffix) place
      ⟨stop, [.node .updateSuffix place stop []]⟩ := by
  cases op with
  | increment => exact matches_rule .spaced .updateSuffix nofun nofun (.altFirst _ (.text hdrop))
  | decrement =>
      have hat : (Start.text ['-', '-']).At place := Start.at_text rfl
        (by rwa [List.append_nil] : place.drop? (['-', '-'] ++ []) = some stop)
      exact matches_rule .spaced .updateSuffix nofun nofun
        (.altSecond (hat.refused (by decide)) (.text hdrop))

/-- An operator of an assignment is read where a space follows it. -/
theorem matches_assignOp (op : AssignOp) (hsettled : skipLayout place = place)
    (hdrop : place.drop? op.symbol.toList = some stop) {rest : List Char}
    (hspace : stop.rest = ' ' :: rest) :
    Matches grammar .spaced (.rule .assignOp) place ⟨stop, [.node .assignOp place stop []]⟩ := by
  have hat := at_spaced hsettled hdrop hspace
  have htext : Matches grammar .token (.text op.symbol.toList) place ⟨stop, []⟩ := .text hdrop
  obtain ⟨offset, read⟩ := stop
  obtain rfl : read = ' ' :: rest := hspace
  have hbody : Matches grammar .token (body .assignOp) place ⟨⟨offset, ' ' :: rest⟩, []⟩ := by
    cases op with
    | add => exact .altFirst _ htext
    | sub => exact .altSecond (hat.refused (by decide)) (.altFirst _ htext)
    | mul =>
        exact .altSecond (hat.refused (by decide)) (.altSecond (hat.refused (by decide))
          (.altFirst _ htext))
    | div =>
        exact .altSecond (hat.refused (by decide)) (.altSecond (hat.refused (by decide))
          (.altSecond (hat.refused (by decide)) (.altFirst _ htext)))
    | assign =>
        have hend : Matches grammar .token (.unless (oneOf ["=", ">"])) ⟨offset, ' ' :: rest⟩
            ⟨⟨offset, ' ' :: rest⟩, []⟩ := .unless (.altSecond (.text_none rfl) (.text_none rfl))
        exact .altSecond (hat.refused (by decide)) (.altSecond (hat.refused (by decide))
          (.altSecond (hat.refused (by decide)) (.altSecond (hat.refused (by decide))
            (.seq htext hend))))
  exact matches_rule .spaced .assignOp nofun nofun hbody

@[simp]
theorem assignOpOf_symbol (op : AssignOp) : assignOpOf op.symbol = op := by
  cases op <;> rfl

end EventLoop.Script
