import EventLoop.Proofs.Peg.Language
import EventLoop.Proofs.Peg.Record
import EventLoop.Proofs.Script.Seam
import EventLoop.Proofs.Script.Token

/-!
# Identifiers

The rule for identifiers reads a name to its end, and refuses it if it is reserved
(`exists_name_of_identifier`): if it is a keyword, and no keyword before it in the list of
keywords starts like it.  The list is tried in its order, and what comes behind the keyword
that is found is not tried again.  So `instanceof` is found to be `in` with more behind it,
which is no keyword: it is the one keyword that is not reserved
(`isReserved_eq_false_iff`), and is read like any other name (`accepts_identifier_iff`).
-/

namespace EventLoop.Script

open Peg

variable {mode : Mode} {place stop : Cursor} {result : Match Rule}

/-- The one keyword that is not reserved. -/
theorem isReserved_eq_false_iff {word : String} :
    isReserved word = false ↔ (word ∈ keywords → word = "instanceof") := by
  have hall : ∀ word ∈ keywords, isReserved word = false ↔ word = "instanceof" := by
    decide
  by_cases hword : word ∈ keywords
  · simp [hall word hword, hword]
  · simp [isReserved, hword]

/-! ## What is read -/

theorem isName_of_spells {read : List Char} (h : (name : Peg.Expr Rule).Spells read) :
    IsName read := by
  obtain ⟨first, rest, hfirst, hrest, rfl⟩ := Expr.spells_seq.1 h
  obtain ⟨c, hc, rfl⟩ := Expr.spells_char.1 hfirst
  refine ⟨hc, ?_⟩
  refine Expr.Spells.many_induction (motive := fun rest => ∀ d ∈ rest, isNameChar d = true)
    hrest (by simp) fun first others hfirst hothers => ?_
  obtain ⟨d, hd, rfl⟩ := Expr.spells_char.1 hfirst
  exact List.forall_mem_append.2 ⟨by simpa using hd, hothers⟩

/-- What the rule for identifiers reads. -/
theorem exists_name_of_identifier (h : Matches grammar .token (body .identifier) place result) :
    ∃ name : String, IsAccepted name ∧ place.drop? name.toList = some result.stop ∧
      startsInName result.stop.rest = false := by
  have hend : startsInName result.stop.rest = false := startsInName_of_isWordRule rfl h
  obtain ⟨read, hspells, hplaces⟩ : ∃ read, (name : Peg.Expr Rule).Spells read ∧
      place.rest = read ++ result.stop.rest ∧
        result.stop.offset = place.offset + byteLength read := by
    cases h with
    | seq hreserved hname =>
        cases hreserved with
        | «unless» => exact hname.spells (by decide) rfl
  have hname := isName_of_spells hspells
  refine ⟨String.ofList read, ⟨by rwa [String.toList_ofList], ?_⟩, ?_, hend⟩
  · refine Bool.eq_false_iff.2 fun hreserved => ?_
    have hrefused : Derives grammar .token (.rule .identifier) place none :=
      refused_identifier hreserved (by rw [String.toList_ofList]; exact hplaces.1) hend
    have hmatches : Matches grammar .token (.rule .identifier) place _ := .rule h
    exact absurd hrefused hmatches.not_refused
  · rw [String.toList_ofList]
    exact Cursor.drop?_eq_some_iff.2 hplaces

/-- The tree of a key stands for a name, which can be a keyword. -/
theorem isName_of_derived {start stop : Cursor} {children : List (Peg.Tree Rule)}
    (h : Tree.Derived grammar (.node .identifierName start stop children)) :
    IsName (start.textTo stop) :=
  isName_of_spells (spells_of_derived rfl rfl h)

/-- The rules whose trees stand for a name. -/
def isNameRule : Rule → Bool
  | .identifier | .propertyShorthand => true
  | _ => false

/-- The tree of a name stands for a name that is taken for an identifier, and nothing
goes on with it. -/
theorem isAccepted_of_derived {rule : Rule} (hrule : isNameRule rule = true) {start stop : Cursor}
    {children : List (Peg.Tree Rule)} (h : Tree.Derived grammar (.node rule start stop children)) :
    IsAccepted (String.ofList (start.textTo stop)) ∧ startsInName stop.rest = false := by
  have hname : ∃ name : String, IsAccepted name ∧ start.drop? name.toList = some stop ∧
      startsInName stop.rest = false := by
    cases h with
    | node _ _ _ hbody _ =>
        cases rule with
        | identifier => exact exists_name_of_identifier hbody
        | propertyShorthand =>
            obtain ⟨inner, hinner, heq⟩ := hbody.of_rule
            have hstop : stop = inner.stop := by
              rw [← Grammar.record_stop, ← heq]
            rw [hstop]
            exact exists_name_of_identifier hinner
        | _ => contradiction
  obtain ⟨name, haccepted, hdrop, hend⟩ := hname
  obtain ⟨hrest, hoffset⟩ := Cursor.drop?_eq_some_iff.1 hdrop
  rw [Cursor.textTo_eq hrest hoffset, String.ofList_toList]
  exact ⟨haccepted, hend⟩

/-! ## What is accepted -/

/-- The keyword that is found in `instanceof` is not all of it. -/
theorem refused_instanceof (hdrop : place.drop? "instanceof".toList = some stop) :
    Derives grammar .token (.rule .reserved) place none := by
  have hsplit : place.drop? ("in".toList ++ "stanceof".toList) = some stop := hdrop
  obtain ⟨middle, hin, hmore⟩ := Cursor.drop?_append_eq_some hsplit
  obtain ⟨offset, rest, rfl, -⟩ := Cursor.drop?_cons_eq_some hmore
  obtain ⟨hread, -⟩ := Cursor.drop?_eq_some_iff.1 hdrop
  have hkeyword : Matches grammar .token (oneOf (keywords.map literal)) place
      ⟨⟨offset, 's' :: rest⟩, []⟩ := by
    have hmem : "in" ∈ keywords := by decide
    obtain ⟨behind, hsplit⟩ := exists_split_of_mem hmem
    have hbefore : ∀ word ∈ keywords.takeWhile (· ≠ "in"),
        (word.toList.isPrefixOf "instanceof".toList ||
          "instanceof".toList.isPrefixOf word.toList) = false := by decide
    rw [hsplit, List.map_append, List.map_cons]
    refine .oneOf (fun other hother => ?_) (.text hin)
    obtain ⟨word, hword, rfl⟩ := List.mem_map.1 hother
    exact .text_none (drop?_of_differs hread (hbefore word hword))
  have hend : Derives grammar .token wordEnd ⟨offset, 's' :: rest⟩ none :=
    .unless (.char .token isNameChar ⟨offset, 's' :: rest⟩)
  have hrule : Derives grammar .token (.rule .keyword) place _ := .rule hkeyword.derives
  exact .rule_none (.seq hrule hend)

/-- A name that is accepted is read as an identifier. -/
theorem matches_accepted {name : String} (h : IsAccepted name)
    (hdrop : place.drop? name.toList = some stop) (hend : startsInName stop.rest = false) :
    Matches grammar .spaced (.rule .identifier) place ⟨stop, [.node .identifier place stop []]⟩ := by
  obtain ⟨hname, hfree⟩ := h
  by_cases hkeyword : name ∈ keywords
  · obtain rfl := isReserved_eq_false_iff.1 hfree hkeyword
    exact matches_rule .spaced .identifier (by decide) (by decide)
      (.seq (.unless (refused_instanceof hdrop)) (matches_name hname hdrop hend))
  · exact matches_identifier ⟨hname, hkeyword⟩ hdrop hend

/-- **Where a name stands, it is an identifier unless it is reserved.** -/
theorem accepts_identifier_iff {name : String} (hname : IsName name.toList)
    (hdrop : place.drop? name.toList = some stop) (hend : startsInName stop.rest = false) :
    (∃ trees, Matches grammar .spaced (.rule .identifier) place ⟨stop, trees⟩) ↔
      isReserved name = false := by
  constructor
  · rintro ⟨trees, h⟩
    refine Bool.eq_false_iff.2 fun hreserved => ?_
    have hread := (Cursor.drop?_eq_some_iff.1 hdrop).1
    exact absurd (refused_identifier hreserved hread hend) h.not_refused
  · exact fun hfree => ⟨_, matches_accepted ⟨hname, hfree⟩ hdrop hend⟩

end EventLoop.Script
