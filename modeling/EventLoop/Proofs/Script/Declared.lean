import EventLoop.Proofs.Script.RoundTrip
import EventLoop.Proofs.Script.Target

/-!
# Declarations of binding patterns

A plain pattern that is declared with a value is read back as the target of a single declarator, but
for holes at the ends of arrays (`Pattern.IsPlain.readsBackAs`).  So the target of a declaration of
a script, if its keys are names and its default values single words, reads back as it is if and
only if no array in it ends with a hole (`Pattern.IsPlain.readsBackAs_shape_iff`).

The text of `let [a,,] = x` is one with a hole behind its only name.  The pattern is rendered as
`[a, ]`, whose last slot is empty and no hole (`hole_lost`).
-/

namespace EventLoop.Script

open Peg

variable {map : LineMap} {place after : Cursor} {p : Pattern} {e : Expr}

/-! ## Reading declarations -/

/-- A declarator declares a pattern with a value, but for spans. -/
def Declarator.Declares (p : Pattern) (e : Expr) (declarator : Declarator) : Prop :=
  ∃ target init span, declarator = .mk target (some init) span ∧ target.shape = p ∧
    init.shape = e.shape

/-- A target with a value behind it is read as a declarator. -/
theorem reads_declarator (h : p.Legible map) (htarget : p.isTarget = true) (he : e.IsGrouped)
    (hsequence : e.isSequence = false)
    (hdrop : place.drop? (p.render.toList ++ ' ' :: '=' :: ' ' :: e.render.toList) = some after)
    (hfollows : Follows closers after) :
    PartRead map (.rule .declarator) (fun part => ∃ declarator,
      part.meaning = .declarator declarator ∧ declarator.Declares p.curtailed e) place after := by
  obtain ⟨middle, htext, hbehind⟩ := Cursor.drop?_append_eq_some hdrop
  obtain ⟨stop, tree, part, hmatch, hstop, hpart, -, target, hmeaning, hshape⟩ :=
    h.target htarget htext (startsInName_of_drop? hbehind)
  have hread : PartRead map _ (Part.Yields e) (skipLayout middle) after :=
    Pattern.reads_value he hsequence hbehind hfollows
  obtain ⟨last, valueTree, valuePart, hvalue, hlast, hvaluePart, init, hinit, hinitShape⟩ := hread
  have hbody : Matches grammar .spaced (body .declarator) place ⟨last, [tree, valueTree]⟩ :=
    matches_seq hmatch hstop (.altFirst _ hvalue)
  refine .of_body rfl hbody hlast (ofTrees_cons hpart (ofTrees_cons hvaluePart rfl)) fun whole =>
    ⟨.declarator (.mk target (some init) whole.span), ?_, _, rfl, _, _, _, rfl, hshape, hinitShape⟩
  obtain ⟨_, _, _, _, meaning⟩ := part
  obtain rfl : meaning = .pattern target := hmeaning
  obtain ⟨_, _, _, _, meaning⟩ := valuePart
  obtain rfl : meaning = .expr init := hinit
  rfl

/-- A declarator behind the keyword of a declaration. -/
theorem reads_varDecl (kind : VarKind) {middle : Cursor} {P : Declarator → Prop}
    (hdrop : place.drop? (kind.keyword.toList ++ [' ']) = some middle)
    (hsettled : skipLayout middle = middle)
    (h : PartRead map (.rule .declarator) (fun part => ∃ declarator,
      part.meaning = .declarator declarator ∧ P declarator) middle after)
    (hend : Follows [.nothing] after) :
    PartRead map (.rule .varDecl) (fun part => ∃ declarator,
      part.meaning = .declaration kind [declarator] ∧ P declarator) place after := by
  obtain ⟨stop, tree, part, hmatch, hstop, hpart, declarator, hmeaning, hP⟩ := h
  obtain ⟨last, hword, hspace⟩ := Cursor.drop?_append_eq_some hdrop
  obtain ⟨offset, rest, rfl, hmiddle⟩ := Cursor.drop?_cons_eq_some hspace
  obtain rfl := Option.some.inj hmiddle
  have hkeyword : Matches grammar .spaced (.rule .declKind) place
      ⟨⟨offset, ' ' :: rest⟩, [.node .declKind place ⟨offset, ' ' :: rest⟩ []]⟩ := by
    refine matches_word rfl (?_ : kind.keyword ∈ ["const", "let", "var"]) ?_ ?_ hword rfl
    all_goals cases kind <;> decide
  have htoken : Part.ofTree map (.node .declKind place ⟨offset, ' ' :: rest⟩ []) =
      .ok ⟨.declKind, _, _, _, .token⟩ := ofTree_token _ _ rfl
  have hcomma : Derives grammar .spaced "," (skipLayout after) none := hend.refused (by decide)
  have hbody : Matches grammar .spaced (body .varDecl) place
      ⟨skipLayout after, [.node .declKind place ⟨offset, ' ' :: rest⟩ [], tree]⟩ :=
    matches_seq hkeyword ((skipLayout_space offset rest).trans hsettled)
      (matches_seq hmatch hstop (.noMore (.seqRefused hcomma)))
  refine .of_body rfl hbody (skipLayout_skipLayout after)
    (ofTrees_cons htoken (ofTrees_cons hpart rfl)) fun whole =>
      ⟨.declaration kind [declarator], ?_, declarator, rfl, hP⟩
  have htext : Part.string ⟨.declKind, place, ⟨offset, ' ' :: rest⟩, map.span place.offset offset,
      .token⟩ = kind.keyword := (string_eq hword).trans String.ofList_toList
  obtain ⟨_, _, _, _, meaning⟩ := part
  obtain rfl : meaning = .declarator declarator := hmeaning
  change Except.ok (Meaning.declaration (varKindOf (Part.string _)) [declarator]) = _
  rw [htext]
  cases kind <;> rfl

/-- What is declared at the end of a text is read as a statement. -/
theorem reads_declareStmt {kind : VarKind} {P : Declarator → Prop}
    (hstart : (Start.keyword kind.keyword).At place)
    (h : PartRead map (.rule .varDecl) (fun part => ∃ declarator,
      part.meaning = .declaration kind [declarator] ∧ P declarator) place after)
    (hend : Follows [.nothing] after) :
    PartRead map (.rule .statement) (fun part => ∃ stmt, part.meaning = .stmt stmt ∧
      ∃ declarator span, stmt = .declare kind [declarator] span ∧ P declarator) place after := by
  obtain ⟨stop, tree, part, hmatch, hstop, hpart, declarator, hmeaning, hP⟩ := h
  have hbody : Matches grammar .spaced (body .declareStmt) place ⟨skipLayout after, [tree]⟩ :=
    matches_seq hmatch hstop (.absent (hend.refused (by decide)))
  have hread : PartRead map (.rule .declareStmt) (fun part => ∃ span,
      part.meaning = .stmt (.declare kind [declarator] span)) place after := by
    refine .of_body rfl hbody (skipLayout_skipLayout after) (ofTrees_cons hpart rfl) fun whole =>
      ⟨.stmt (.declare kind [declarator] whole.span), ?_, _, rfl⟩
    obtain ⟨_, _, _, _, meaning⟩ := part
    obtain rfl : meaning = .declaration kind [declarator] := hmeaning
    rfl
  obtain ⟨last, stmtTree, stmtPart, hstmt, hlast, hstmtPart, span, hstmtMeaning⟩ := hread
  have hrefuses : ∀ other ∈ statementRules.takeWhile (· ≠ .declareStmt),
      (Start.keyword kind.keyword).refuses (.rule other) = true := by
    cases kind <;> decide
  have hchoice : Matches grammar .spaced (body .statement) place ⟨last, [stmtTree]⟩ :=
    hstart.choose statementRules (by decide) hrefuses hstmt
  refine .of_body rfl hchoice hlast (ofTrees_cons hstmtPart rfl) fun whole =>
    ⟨_, ?_, _, rfl, declarator, span, rfl, hP⟩
  obtain ⟨_, _, _, _, meaning⟩ := stmtPart
  obtain rfl : meaning = .stmt (.declare kind [declarator] span) := hstmtMeaning
  rfl

/-! ## Texts -/

/-- The declaration of a pattern is a script of one declarator, whose target is another pattern but
for its spans. -/
def Pattern.ReadsBackAs (p q : Pattern) : Prop :=
  ∃ target init inner span range, parse ("let " ++ p.render ++ " = x") =
      .ok ⟨[.declare .letVar [.mk target (some init) inner] span], range⟩ ∧ target.shape = q

theorem Pattern.ReadsBackAs.unique {q other : Pattern} (h : p.ReadsBackAs q)
    (hother : p.ReadsBackAs other) : q = other := by
  obtain ⟨target, init, inner, span, range, hparse, rfl⟩ := h
  obtain ⟨_, _, _, _, _, hotherParse, rfl⟩ := hother
  rw [hparse] at hotherParse
  injection hotherParse with hprogram
  injection hprogram with hbody
  injection hbody with hstmt
  injection hstmt with _ hdeclarators
  injection hdeclarators with hdeclarator
  injection hdeclarator with htarget
  rw [htarget]

/-- **Plain patterns read back**, but for holes at the ends of arrays. -/
theorem Pattern.IsPlain.readsBackAs (h : p.IsPlain) (htarget : p.isTarget = true) :
    p.ReadsBackAs p.curtailed := by
  have hx : (Expr.ident "x" .zero).IsGrouped := .ident (by decide : IsIdentifier "x").accepted .zero
  let value := ' ' :: '=' :: ' ' :: (Expr.ident "x" .zero).render.toList
  have htext : ("let " ++ p.render ++ " = x").toList =
      VarKind.letVar.keyword.toList ++ [' '] ++ (p.render.toList ++ value) := by
    rw [String.toList_append, String.toList_append, List.append_assoc]
    rfl
  obtain ⟨offset, hdrop⟩ : ∃ offset, (Cursor.start ("let " ++ p.render ++ " = x").toList).drop?
      (VarKind.letVar.keyword.toList ++ [' '] ++ (p.render.toList ++ value)) =
        some ⟨offset, []⟩ := by
    refine ⟨_, Cursor.drop?_eq_some_iff.2 ⟨?_, rfl⟩⟩
    rw [List.append_nil, ← htext]
    rfl
  obtain ⟨middle, hkeyword, hdeclarator⟩ := Cursor.drop?_append_eq_some hdrop
  obtain ⟨name, hname, hbehind⟩ := Cursor.drop?_append_eq_some hdeclarator
  obtain ⟨start, -, hat⟩ := h.target_start htarget hname (startsInName_of_drop? hbehind)
  have hstart : (Start.keyword VarKind.letVar.keyword).At _ :=
    Start.at_keyword_space (by decide) hkeyword
  have hend : Follows [.nothing] ⟨offset, []⟩ := ⟨rfl, .nothing, List.mem_cons_self, rfl⟩
  have hlegible : p.Legible (.ofText ("let " ++ p.render ++ " = x").toList) := h.legible
  have hread := reads_declareStmt hstart (reads_varDecl .letVar hkeyword hat.settled
    (reads_declarator hlegible htarget hx rfl hdeclarator (hend.mono (by decide))) hend) hend
  obtain ⟨stmt, range, hparse, declarator, span, rfl, target, init, inner, rfl, hshape, -⟩ :=
    parse_statement hstart.settled rfl hread
  exact ⟨target, init, inner, span, range, hparse, hshape⟩

/-- A plain pattern reads back as it is if and only if no array in it ends with a hole. -/
theorem Pattern.IsPlain.readsBackAs_shape_iff (h : p.IsPlain) (htarget : p.isTarget = true) :
    p.ReadsBackAs p.shape ↔ p.EndsFilled := by
  have hcurtailed := h.readsBackAs htarget
  rw [← h.curtailed_eq_shape_iff]
  exact ⟨hcurtailed.unique, fun heq => heq ▸ hcurtailed⟩

/-- A target of a script is plain if its keys are names and its default values are words. -/
theorem isPlain_of_declarator {script : List Char} {target : Pattern} {init : Option Expr}
    {span : Span} (h : (Phrase.declarator (.mk target init span)).Everywhere (Phrase.Sound script))
    (hplain : (Phrase.pattern target).Everywhere Phrase.IsPlain) :
    target.IsPlain ∧ target.isTarget = true :=
  ⟨Pattern.isPlain_of_sound ((h.inside _ List.mem_cons_self).and hplain) rfl, h.here.isRead.1⟩

/-- **A declared pattern reads back exactly if no array in it ends with a hole**, when its keys are
names and its default values are names, truth values or `null`.  What is read back is the pattern,
where each array that ends with a hole has lost it. -/
theorem readsBackAs_parse {source : String} {program : Program} (h : parse source = .ok program) :
    program.Everywhere fun phrase => ∀ target init span,
      phrase = .declarator (.mk target init span) →
      (Phrase.pattern target).Everywhere Phrase.IsPlain →
        target.ReadsBackAs target.curtailed ∧
          (target.ReadsBackAs target.shape ↔ target.EndsFilled) := by
  intro stmt hstmt
  have hsound := (placed_parse h).1.sound (.stmt stmt) (List.mem_map_of_mem hstmt)
  refine hsound.everywhere.imp fun phrase hphrase target init span heq hplain => ?_
  rw [heq] at hphrase
  obtain ⟨htargetPlain, htarget⟩ := isPlain_of_declarator hphrase hplain
  exact ⟨htargetPlain.readsBackAs htarget, htargetPlain.readsBackAs_shape_iff htarget⟩

theorem Phrase.everywhere_ident (name : String) (span : Span) :
    (Phrase.pattern (.ident name span)).Everywhere Phrase.IsPlain :=
  .intro trivial (List.forall_mem_nil _)

/-- The names in a script that declares an object of a name, an array behind its key and a rest. -/
def namesOfObject? (source : String) : Option (List String) :=
  match parse source with
  | .ok ⟨[.declare _ [.mk (.object [(first, .ident a _), (second, .array [none,
      some (.withDefault (.ident b _) (.null _) _)] _), (third, .rest (.ident c _) _)] _) _ _] _],
      _⟩ => some [first, a, second, b, third, c]
  | _ => none

/-- A name, an array behind a key that is a keyword, and a rest. -/
theorem readsBackAs_parse_object :
    ∃ program kind target init inner span,
      parse "let \x7b a, if: [, b = null], ...c \x7d = d" = .ok program ∧
      program.body = [.declare kind [.mk target init inner] span] ∧
      (Phrase.pattern target).Everywhere Phrase.IsPlain ∧ target.EndsFilled ∧
      target.render = "\x7b a, if: [, b = null], ...c \x7d" ∧ target.ReadsBackAs target.shape := by
  have hnames : namesOfObject? "let \x7b a, if: [, b = null], ...c \x7d = d" =
      some ["a", "a", "if", "b", "...", "c"] := by
    decide +kernel
  unfold namesOfObject? at hnames
  split at hnames
  · rename_i hparse
    simp only [Option.some.injEq, List.cons.injEq, and_true] at hnames
    obtain ⟨rfl, rfl, rfl, rfl, rfl, rfl⟩ := hnames
    have hmain := ((readsBackAs_parse hparse _ List.mem_cons_self).inside _
      List.mem_cons_self).here _ _ _ rfl
    refine ⟨_, _, _, _, _, _, hparse, rfl, ?plain, ?filled, by cbv, (hmain ?plain).2.2 ?filled⟩
    case plain =>
      have hnull (span : Span) : (Phrase.expr (.null span)).Everywhere Phrase.IsPlain :=
        .intro trivial (List.forall_mem_nil _)
      refine .intro ?keys (List.forall_mem_cons.2 ⟨Phrase.everywhere_ident ..,
        List.forall_mem_cons.2 ⟨.intro trivial (List.forall_mem_singleton.2 (.intro rfl ?slot)),
          List.forall_mem_singleton.2 (.intro trivial ?rest)⟩⟩)
      case keys =>
        have hnames : IsName "a".toList ∧ IsName "if".toList := by decide
        refine List.forall_mem_cons.2 ⟨fun _ => hnames.1, List.forall_mem_cons.2
          ⟨fun _ => hnames.2, List.forall_mem_singleton.2 fun hfree => ?_⟩⟩
        exact absurd hfree.symm Bool.false_ne_true
      case slot =>
        exact List.forall_mem_cons.2
          ⟨Phrase.everywhere_ident .., List.forall_mem_singleton.2 (hnull _)⟩
      case rest => exact List.forall_mem_singleton.2 (Phrase.everywhere_ident ..)
    case filled =>
      refine .object (List.forall_mem_cons.2 ⟨.ident .., List.forall_mem_cons.2
        ⟨.array (by simp) (fun element helement => ?_) _,
          List.forall_mem_singleton.2 (.rest (.ident ..) _)⟩⟩) _
      obtain rfl : element = _ := by simpa using helement
      exact .withDefault (.ident ..) _ _
  · contradiction

/-- The name in a script that declares an array of a name and a hole. -/
def nameBeforeHole? (source : String) : Option String :=
  match parse source with
  | .ok ⟨[.declare _ [.mk (.array [some (.ident a _), none] _) _ _] _], _⟩ => some a
  | _ => none

/-- An array of a name and a hole is read back without the hole. -/
theorem hole_lost :
    ∃ program kind target init inner span, parse "let [a,,] = x" = .ok program ∧
      program.body = [.declare kind [.mk target init inner] span] ∧
      (Phrase.pattern target).Everywhere Phrase.IsPlain ∧ target.render = "[a, ]" ∧
      ¬ target.ReadsBackAs target.shape := by
  have hname : nameBeforeHole? "let [a,,] = x" = some "a" := by decide +kernel
  unfold nameBeforeHole? at hname
  split at hname
  · rename_i hparse
    obtain rfl := Option.some.inj hname
    have hsound := (placed_parse hparse).1.sound _ List.mem_cons_self
    have hmain := isPlain_of_declarator (hsound.inside _ List.mem_cons_self)
    have hplain {inner span : Span} :
        (Phrase.pattern (.array [some (.ident "a" inner), none] span)).Everywhere Phrase.IsPlain :=
      .intro trivial (List.forall_mem_singleton.2 (Phrase.everywhere_ident ..))
    obtain ⟨htarget, hisTarget⟩ := hmain hplain
    refine ⟨_, _, _, _, _, _, hparse, rfl, hplain, by cbv, ?_⟩
    rw [htarget.readsBackAs_shape_iff hisTarget]
    rintro (_ | ⟨hlast, -⟩)
    exact hlast rfl
  · contradiction

end EventLoop.Script
