import EventLoop.Proofs.Script.Item

/-!
# Reading operands back

Names, plain values, lists and expressions in parentheses are read back by the rule for the
beginnings of operands (`reads_ident` to `reads_group`), and the accesses and calls behind
them as what groups to the left (`Chain.member`, `Chain.index`, `Chain.call`).
-/

namespace EventLoop.Script

open Peg

variable {map : LineMap} {e : Expr} {es : List Expr} {place after : Cursor}

/-! ## Names and plain values -/

/-- The rules for the beginnings of operands, in the order in which they are tried. -/
def primaries : List Rule :=
  [.literal, .newExpr, .functionExpr, .arrayLit, .objectLit, .template, .regex, .parenExpr,
   .identifier]

/-- The rules for plain values, in the order in which they are tried. -/
def literals : List Rule :=
  [.number, .string, .boolean, .nullLit]

theorem string_eq {part : Part} {text : List Char}
    (h : part.start.drop? text = some part.stop) : part.string = String.ofList text := by
  obtain ⟨hread, hoffset⟩ := Cursor.drop?_eq_some_iff.1 h
  rw [Part.string, Part.text, Cursor.textTo_eq hread hoffset]

/-- A name is read back. -/
theorem reads_ident {name : String} (hname : IsAccepted name)
    (hdrop : place.drop? name.toList = some after) (hword : startsInName after.rest = false)
    (span : Span) : Reads map .primary (.ident name span) place after := by
  obtain ⟨start, hstart, hat⟩ := hname.start hdrop hword
  have hrefuses : ∀ start ∈ nameStarts, ∀ other ∈ primaries.takeWhile (· ≠ .identifier),
      start.refuses (.rule other) = true := by
    decide
  have hmatch := matches_accepted hname hdrop hword
  have hpart : Part.ofTree map (.node .identifier place after []) =
      .ok ⟨.identifier, place, after, map.span place.offset after.offset, .token⟩ :=
    ofTree_node rfl rfl
  have hchoice : Matches grammar .spaced (body .primary) place _ :=
    hat.choose primaries (by decide) (hrefuses start hstart) hmatch
  refine .of_body nofun hchoice rfl (ofTrees_cons hpart rfl) rfl ?_
  have htext : Part.string ⟨.identifier, place, after, map.span place.offset after.offset, .token⟩ =
      String.ofList name.toList := string_eq hdrop
  rw [Part.identExpr, htext, String.ofList_toList, Expr.shape, Expr.shape]

/-- A plain value that is read back is the beginning of an operand. -/
theorem Reads.plain {r : Rule} (h : Reads map r e place after) {start : Start} (hat : start.At place)
    (hmem : r ∈ literals) (hcover : isCover .literal r = true)
    (hliterals : ∀ other ∈ literals.takeWhile (· ≠ r), start.refuses (.rule other) = true) :
    Reads map .primary e place after := by
  have hliteral : Reads map .literal e place after :=
    h.choice hcover rfl fun hmatch => hat.choose literals hmem hliterals hmatch
  exact hliteral.choice rfl rfl fun hmatch => .altFirst _ hmatch

/-- A token is a part that stands for its text. -/
theorem ofTree_token {r : Rule} (place after : Cursor) {meaning : Meaning}
    (h : assemble r ⟨r, place, after, map.span place.offset after.offset, .token⟩ [] = .ok meaning) :
    Part.ofTree map (.node r place after []) =
      .ok ⟨r, place, after, map.span place.offset after.offset, meaning⟩ :=
  ofTree_node rfl h

/-- A truth value is read back. -/
theorem reads_bool {value : Bool} {word : String} (hvalue : word = if value then "true" else "false")
    (hdrop : place.drop? word.toList = some after) (hword : startsInName after.rest = false)
    (span : Span) : Reads map .primary (.bool value span) place after := by
  have hname : IsName word.toList := by
    cases value <;> (subst hvalue; decide)
  have hmatch : Matches grammar .spaced (.rule .boolean) place
      ⟨after, [.node .boolean place after []]⟩ := by
    refine matches_word rfl ?_ hname ?_ hdrop hword
    all_goals cases value <;> (subst hvalue; decide)
  have hreads : Reads map .boolean (.bool value span) place after := by
    refine ⟨after, [], hmatch, rfl, _, _, ofTree_token place after rfl, rfl, rfl, ?_⟩
    have htext : Part.string ⟨.boolean, place, after, map.span place.offset after.offset, .token⟩ =
        String.ofList word.toList := string_eq hdrop
    rw [htext, String.ofList_toList, Expr.shape, Expr.shape]
    cases value <;> (subst hvalue; rfl)
  refine hreads.plain (Start.at_keyword hname hdrop hword) (by decide) rfl ?_
  cases value <;> (subst hvalue; decide)

theorem reads_null (hdrop : place.drop? "null".toList = some after)
    (hword : startsInName after.rest = false) (span : Span) :
    Reads map .primary (.null span) place after := by
  have hname : IsName "null".toList := by decide
  have hmatch : Matches grammar .spaced (.rule .nullLit) place
      ⟨after, [.node .nullLit place after []]⟩ :=
    matches_word rfl (List.mem_singleton_self "null") hname (by decide) hdrop hword
  have hreads : Reads map .nullLit (.null span) place after :=
    ⟨after, [], hmatch, rfl, _, _, ofTree_token place after rfl, rfl, rfl,
      by rw [Expr.shape, Expr.shape]⟩
  exact hreads.plain (Start.at_keyword hname hdrop hword) (by decide) rfl (by decide)

/-- A quoted text is read back. -/
theorem reads_string {value : String} (hline : ∀ c ∈ value.toList, isLineEnd c = false)
    (hdrop : place.drop? (Text.quote value).toList = some after) (span : Span) :
    Reads map .primary (.string value span) place after := by
  obtain ⟨first, last, hmatch, htext⟩ := matches_string hline hdrop
  have hpart : Part.ofTree map (.node .sqChars first last []) =
      .ok ⟨.sqChars, first, last, map.span first.offset last.offset, .token⟩ :=
    ofTree_token first last rfl
  have hreads : Reads map .string (.string value span) place after := by
    refine ⟨after, _, hmatch, rfl, _, _, ofTree_node (ofTrees_cons hpart rfl) rfl, rfl, rfl, ?_⟩
    have hcontent : Part.text ⟨.sqChars, first, last, map.span first.offset last.offset, .token⟩ =
        Text.escape value.toList := htext
    rw [hcontent, Text.unescape_escape, String.ofList_toList, Expr.shape, Expr.shape]
  rw [Text.quote, String.toList_ofList] at hdrop
  have hat : (Start.text ['\x27']).At place := Start.at_text rfl hdrop
  exact hreads.plain hat (by decide) rfl (by decide)

/-! ## Brackets -/

variable (map) in
/-- An expression is read back wherever it is all that stands in brackets, or in a text. -/
def ReadableAlone (e : Expr) : Prop :=
  ∀ place after : Cursor, place.drop? e.render.toList = some after → Follows brackets after →
    Reads map .expression e place after

/-- What is no list with commas is read back alone if it is read back as a value. -/
theorem Readable.alone (h : Readable map e) (hsequence : e.isSequence = false) :
    ReadableAlone map e := by
  intro place after hdrop hfollows
  have hitem : place.drop? e.item = some after := by
    rw [Expr.item, hsequence]
    exact hdrop
  exact (h _ _ hitem (hfollows.mono (by decide))).followed rfl rfl rfl
    (.noMore (hfollows.refused (by decide)))

/-- An expression in brackets is read back. -/
theorem matches_between (opener : Char) {closer : Char} (hcloser : closer = ')' ∨ closer = ']')
    (he : e.IsGrouped) (hread : ReadableAlone map e)
    (hdrop : place.drop? (opener :: (e.render.toList ++ [closer])) = some after) :
    ∃ tree, Matches grammar .spaced
        (.seq (.text [opener]) (.seq (.rule .expression) (.text [closer]))) place ⟨after, [tree]⟩ ∧
      tree.rule = .expression ∧ Means map tree e := by
  obtain ⟨offset, rest, rfl, hbehind⟩ := Cursor.drop?_cons_eq_some hdrop
  obtain ⟨middle, hinner, hclose⟩ := Cursor.drop?_append_eq_some hbehind
  obtain ⟨hfollows, hsettled⟩ := follows_bracket hcloser hclose
  obtain ⟨stop, children, hmatch, hstop, hmeans⟩ := hread _ _ hinner hfollows
  have hplace := (he.start hinner hfollows.word).settled
  have hopen : Matches grammar .spaced (.text [opener]) ⟨offset, opener :: rest⟩
      ⟨⟨offset + opener.utf8Size, rest⟩, []⟩ := .text (if_pos rfl)
  have hend : Matches grammar .spaced (.text [closer]) middle ⟨after, []⟩ := .text hclose
  exact ⟨_, matches_seq hopen hplace (matches_seq hmatch (hstop.trans hsettled) hend), rfl, hmeans⟩

/-- An expression in parentheses is read back. -/
theorem reads_group (he : e.IsGrouped) (hread : ReadableAlone map e)
    (hdrop : place.drop? (e.sided true) = some after) : Reads map .primary e place after := by
  rw [Expr.sided_true] at hdrop
  obtain ⟨tree, hmatch, hrule, part, value, hpart, hpartRule, hmeaning, hvalue⟩ :=
    matches_between '(' (.inl rfl) he hread hdrop
  have hparen : Reads map .parenExpr e place after :=
    .of_body nofun hmatch rfl (ofTrees_cons hpart rfl)
      (assemble_cover (by rfl : isCover .parenExpr .expression = true) _ (hpartRule.trans hrule)
        hmeaning) hvalue
  have hat : (Start.text ['(']).At place := Start.at_text rfl hdrop
  exact hparen.choice rfl rfl fun hmatch => hat.choose primaries (by decide) (by decide) hmatch

/-! ## Lists -/

/-- The elements in brackets, if there are any, are read back. -/
theorem matches_optionalItems {closer : Char} (hcloser : closer = ')' ∨ closer = ']')
    (hes : ∀ e ∈ es, e.IsGrouped ∧ Readable map e) {last : Cursor}
    (hdrop : place.drop? (Expr.itemized es) = some after)
    (hclose : after.drop? [closer] = some last) :
    ItemsRead map (.optional (separated "," listItem)) es place after := by
  obtain ⟨hfollows, hsettled⟩ := follows_bracket hcloser hclose
  cases es with
  | nil =>
      obtain rfl := Option.some.inj hdrop
      have hnone : Derives grammar .spaced (separated "," listItem) (skipLayout place) none :=
        hfollows.refused (by decide)
      rw [hsettled] at hnone
      exact ⟨place, [], [], .absent hnone, rfl, rfl, rfl⟩
  | cons e es =>
      obtain ⟨stop, trees, parts, hmatch, hstop, hparts, hvalues⟩ :=
        matches_items (fun e he => ⟨(hes e he).1, (hes e he).2.listItem (hes e he).1⟩) hdrop hfollows
      exact ⟨stop, trees, parts, .present hmatch, hstop, hparts, hvalues⟩

/-- A list is read back. -/
theorem reads_list (hes : ∀ e ∈ es, e.IsGrouped ∧ Readable map e)
    (hdrop : place.drop? ('[' :: (Expr.itemized es ++ [']'])) = some after) (span : Span) :
    Reads map .primary (.list es span) place after := by
  have hat : (Start.text ['[']).At place := Start.at_text rfl hdrop
  obtain ⟨offset, rest, rfl, hbehind⟩ := Cursor.drop?_cons_eq_some hdrop
  obtain ⟨middle, hitems, hclose⟩ := Cursor.drop?_append_eq_some hbehind
  obtain ⟨hfollows, hsettled⟩ := follows_bracket (.inr rfl) hclose
  have hplace := settled_items (.inr rfl) (fun e he => (hes e he).1) hitems hclose
  obtain ⟨stop, trees, parts, hmatch, hstop, hparts, hvalues⟩ :=
    matches_optionalItems (.inr rfl) hes hitems hclose
  have hopen : Matches grammar .spaced "[" ⟨offset, '[' :: rest⟩
      ⟨⟨offset + '['.utf8Size, rest⟩, []⟩ := .text rfl
  have hcomma : Matches grammar .spaced (.optional ",") (skipLayout middle) ⟨skipLayout middle, []⟩ :=
    .absent (hfollows.refused (by decide))
  rw [hsettled] at hcomma
  have hend : Matches grammar .spaced "]" middle ⟨after, []⟩ := .text hclose
  have hbody : Matches grammar .spaced (body .arrayLit) ⟨offset, '[' :: rest⟩ ⟨after, trees ++ []⟩ :=
    matches_seq hopen hplace
      (matches_seq hmatch (hstop.trans hsettled) (matches_seq hcomma hsettled hend))
  rw [List.append_nil] at hbody
  have hlist : Reads map .arrayLit (.list es span) ⟨offset, '[' :: rest⟩ after := by
    refine .of_body nofun hbody rfl hparts rfl ?_
    rw [Expr.shape, Expr.shape, Expr.shapes_eq_map, Expr.shapes_eq_map, hvalues]
  exact hlist.choice rfl rfl fun hmatch => hat.choose primaries (by decide) (by decide) hmatch

/-! ## Accesses and calls -/

/-- The rules for accesses and calls, in the order in which they are tried. -/
def accesses : List Rule :=
  [.callSuffix, .optionalAccess, .regularAccess, .indexAccess]

theorem foldTrailers_cons (left : Expr) (part : Part) (behind : List Part) :
    foldTrailers left (part :: behind) = foldTrailers (foldTrailers left [part]) behind := by
  rw [foldTrailers, foldTrailers, foldTrailers]

/-- One more access or call is read behind an expression. -/
theorem Chain.access {owner : Expr} {middle stop : Cursor} {r : Rule}
    {children : List (Peg.Tree Rule)} {meaning : Meaning}
    (h : Chain map trailers owner place middle) {start : Start} (hat : start.At middle)
    (hmem : r ∈ accesses)
    (hrefuses : ∀ other ∈ accesses.takeWhile (· ≠ r), start.refuses (.rule other) = true)
    (hmatch : Matches grammar .spaced (.rule r) middle ⟨stop, [.node r middle stop children]⟩)
    (hstop : skipLayout stop = skipLayout after)
    (hpart : Part.ofTree map (.node r middle stop children) =
      .ok ⟨r, middle, stop, map.span middle.offset stop.offset, meaning⟩)
    (hfold : ∀ (value : Expr) (part : Part), value.shape = owner.shape → part.meaning = meaning →
      (foldTrailers value [part]).shape = e.shape) :
    Chain map trailers e place after := by
  have hchoice : Matches grammar .spaced (body .trailer) middle _ :=
    hat.choose accesses hmem hrefuses hmatch
  have htrailer := matches_rule .spaced .trailer nofun nofun hchoice
  have hwhole : Part.ofTree map (.node .trailer middle stop [.node r middle stop children]) =
      .ok ⟨.trailer, middle, stop, map.span middle.offset stop.offset, meaning⟩ := by
    have hparts : Part.ofTrees map [.node r middle stop children] = .ok [⟨r, middle, stop,
        map.span middle.offset stop.offset, meaning⟩] := ofTrees_cons hpart rfl
    exact ofTree_node hparts rfl
  refine h.step hat.settled htrailer hstop (ofTrees_cons hwhole rfl) fun value hvalue =>
    ⟨foldTrailers value [⟨.trailer, middle, stop, map.span middle.offset stop.offset, meaning⟩],
      hfold value _ hvalue rfl, fun others whole hfolds => ?_⟩
  rw [List.cons_append, List.nil_append]
  exact (foldTrailers_cons _ _ _).trans hfolds

/-- The rule for the access to a member. -/
def memberRule (isOptional : Bool) : Rule :=
  if isOptional then .optionalAccess else .regularAccess

/-- What stands before the name of a member. -/
def memberDot (isOptional : Bool) : List Char :=
  if isOptional then ['?', '.'] else ['.']

/-- A member is read back. -/
theorem Chain.member {owner : Expr} {middle : Cursor} (h : Chain map trailers owner place middle)
    {property : String} (hproperty : IsName property.toList) {isOptional : Bool}
    (hdrop : middle.drop? (memberDot isOptional ++ property.toList) = some after)
    (hword : startsInName after.rest = false) (propertySpan span : Span) :
    Chain map trailers (.member owner property propertySpan isOptional span) place after := by
  have hat : (Start.text (memberDot isOptional)).At middle :=
    Start.at_text (by cases isOptional <;> rfl) hdrop
  obtain ⟨start, hdot, hname⟩ := Cursor.drop?_append_eq_some hdrop
  have hsettled := hproperty.solid (Cursor.drop?_eq_some_iff.1 hname).1
  have hseq := matches_seq (.text hdot) hsettled (matches_identifierName hproperty hname hword)
  have hmatch : Matches grammar .spaced (.rule (memberRule isOptional)) middle
      ⟨after, [.node (memberRule isOptional) middle after
        [.node .identifierName start after []]]⟩ := by
    cases isOptional with
    | true => exact matches_rule .spaced .optionalAccess nofun nofun hseq
    | false => exact matches_rule .spaced .regularAccess nofun nofun hseq
  have htoken : Part.ofTree map (.node .identifierName start after []) =
      .ok ⟨.identifierName, start, after, map.span start.offset after.offset, .token⟩ :=
    ofTree_token start after rfl
  have htext : Part.string ⟨.identifierName, start, after, map.span start.offset after.offset,
      .token⟩ = property := (string_eq hname).trans String.ofList_toList
  have hpart : Part.ofTree map (.node (memberRule isOptional) middle after
      [.node .identifierName start after []]) =
      .ok ⟨memberRule isOptional, middle, after, map.span middle.offset after.offset,
        .access isOptional property (map.span start.offset after.offset)⟩ := by
    rw [← htext]
    refine ofTree_node (ofTrees_cons htoken rfl) ?_
    cases isOptional <;> rfl
  refine h.access hat (by cases isOptional <;> decide) (by cases isOptional <;> decide)
    hmatch rfl hpart fun value part hvalue hmeaning => ?_
  rw [foldTrailers, foldTrailers, hmeaning, Expr.shape, Expr.shape, hvalue]

/-- An element at an index is read back. -/
theorem Chain.index {owner position : Expr} {middle : Cursor}
    (h : Chain map trailers owner place middle) (hposition : position.IsGrouped)
    (hread : ReadableAlone map position)
    (hdrop : middle.drop? ('[' :: (position.render.toList ++ [']'])) = some after) (span : Span) :
    Chain map trailers (.index owner position span) place after := by
  have hat : (Start.text ['[']).At middle := Start.at_text rfl hdrop
  obtain ⟨tree, hmatch, -, part, value, hpart, -, hmeaning, hvalue⟩ :=
    matches_between '[' (.inr rfl) hposition hread hdrop
  have hrule : Matches grammar .spaced (.rule .indexAccess) middle
      ⟨after, [.node .indexAccess middle after [tree]]⟩ :=
    matches_rule .spaced .indexAccess nofun nofun hmatch
  have haccess : Part.ofTree map (.node .indexAccess middle after [tree]) =
      .ok ⟨.indexAccess, middle, after, map.span middle.offset after.offset, .index value⟩ := by
    refine ofTree_node (ofTrees_cons hpart rfl) ?_
    unfold assemble assembleStmt? assembleExpr? assemblePattern? assemblePiece
    dsimp only
    rw [exprsOf_cons hmeaning]
    rfl
  refine h.access hat (by decide) (by decide) hrule rfl haccess
    fun left whole hleft hwhole => ?_
  rw [foldTrailers, foldTrailers, hwhole, Expr.shape, Expr.shape, hleft, hvalue]

/-- Arguments between parentheses are read back. -/
theorem matches_callSuffix {args : List Expr} (hargs : ∀ e ∈ args, e.IsGrouped ∧ Readable map e)
    (hdrop : place.drop? ('(' :: (Expr.itemized args ++ [')'])) = some after) :
    ∃ children values, Matches grammar .spaced (.rule .callSuffix) place
        ⟨after, [.node .callSuffix place after children]⟩ ∧
      Part.ofTree map (.node .callSuffix place after children) =
        .ok ⟨.callSuffix, place, after, map.span place.offset after.offset, .args values⟩ ∧
      values.map Expr.shape = args.map Expr.shape := by
  obtain ⟨offset, rest, rfl, hbehind⟩ := Cursor.drop?_cons_eq_some hdrop
  obtain ⟨middle, hitems, hclose⟩ := Cursor.drop?_append_eq_some hbehind
  obtain ⟨hfollows, hsettled⟩ := follows_bracket (.inl rfl) hclose
  have hopen : Matches grammar .spaced "(" ⟨offset, '(' :: rest⟩
      ⟨⟨offset + '('.utf8Size, rest⟩, []⟩ := .text rfl
  have hend : Matches grammar .spaced ")" middle ⟨after, []⟩ := .text hclose
  cases args with
  | nil =>
      have hnone : Derives grammar .spaced (.rule .argList) (skipLayout middle) none :=
        hfollows.refused (by decide)
      rw [hsettled] at hnone
      have hplace := settled_items (.inl rfl) (fun e he => (hargs e he).1) hitems hclose
      have hbody := matches_seq hopen (hplace.trans (Option.some.inj hitems))
        (matches_seq (.absent hnone) hsettled hend)
      exact ⟨[], [], matches_rule .spaced .callSuffix (by decide) (by decide) hbody,
        ofTree_node rfl rfl, rfl⟩
  | cons e es =>
      have hplace := settled_items (.inl rfl) (fun e he => (hargs e he).1) hitems hclose
      obtain ⟨stop, trees, parts, hmatch, hstop, hparts, hvalues⟩ := matches_items
        (fun e he => ⟨(hargs e he).1, (hargs e he).2.listItem (hargs e he).1⟩) hitems hfollows
      replace hstop := hstop.trans hsettled
      have hcomma : Derives grammar .spaced "," (skipLayout middle) none :=
        hfollows.refused (by decide)
      rw [hsettled] at hcomma
      have hargList := matches_seq hmatch hstop (.absent hcomma)
      rw [Match.after, List.append_nil] at hargList
      have hlist := matches_rule .spaced .argList (by decide) (by decide) hargList
      have hbody := matches_seq hopen hplace (matches_seq (.present hlist) hsettled hend)
      have hpart {start stop : Cursor} : Part.ofTree map (.node .argList start stop trees) =
          .ok ⟨.argList, start, stop, map.span start.offset stop.offset, .exprs (exprsOf parts)⟩ :=
        ofTree_node hparts rfl
      refine ⟨_, exprsOf parts, matches_rule .spaced .callSuffix (by decide) (by decide) hbody,
        ofTree_node (ofTrees_cons hpart rfl) ?_, hvalues⟩
      exact congrArg (fun values => Except.ok (Meaning.args values)) (List.append_nil _)

/-- A call is read back. -/
theorem Chain.call {callee : Expr} {args : List Expr} {middle : Cursor}
    (h : Chain map trailers callee place middle) (hargs : ∀ e ∈ args, e.IsGrouped ∧ Readable map e)
    (hdrop : middle.drop? ('(' :: (Expr.itemized args ++ [')'])) = some after) (span : Span) :
    Chain map trailers (.call callee args span) place after := by
  have hat : (Start.text ['(']).At middle := Start.at_text rfl hdrop
  obtain ⟨children, values, hmatch, hpart, hvalues⟩ := matches_callSuffix hargs hdrop
  refine h.access hat (by decide) (by decide) hmatch rfl hpart
    fun left whole hleft hwhole => ?_
  rw [foldTrailers, foldTrailers, hwhole, Expr.shape, Expr.shape, hleft, Expr.shapes_eq_map,
    Expr.shapes_eq_map, hvalues]

end EventLoop.Script
