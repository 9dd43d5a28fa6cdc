import EventLoop.Proofs.Script.Reading
import EventLoop.Proofs.Script.Shaping
import EventLoop.Proofs.Script.Totality

/-!
# All that is read is well-shaped

The pieces of phrases are put together as the phrases are (`Shaping.shaped_piece`), so that the
meaning of any tree is well-shaped, and with it the program of a text (`wellShaped_parse`).
-/

namespace EventLoop.Script

namespace Shaping

variable {text : List Char} {rule : Rule} {whole : Part} {parts : List Part}

/-! ## Pieces -/

theorem shaped_init (h : Shaping text .forInit whole parts) :
    ∀ value ∈ parts.head?.bind fun part => match part.meaning with
      | .declaration kind declarators => some (.declare kind declarators part.span)
      | .expr value => some (.exprStmt value part.span)
      | _ => none,
    (Phrase.stmt value).Everywhere Phrase.WellShaped ∧ value.isInit = true := by
  intro value hvalue
  obtain ⟨part, hpart, hmeaning⟩ := Option.bind_eq_some_iff.1 hvalue
  have hmem := List.mem_of_mem_head? hpart
  obtain ⟨hphrases, hsettled⟩ := h.shaped part hmem
  split at hmeaning
  · rename_i heq
    obtain rfl := Option.some.inj hmeaning
    rw [heq] at hphrases
    rw [Part.Settled, heq] at hsettled
    refine ⟨Phrase.everywhere_of_solid hsettled (List.forall_mem_map.2 fun declarator hd => ?_),
      rfl⟩
    exact ⟨hphrases _ (List.mem_map_of_mem hd), rfl⟩
  · rename_i heq
    obtain rfl := Option.some.inj hmeaning
    have hexpr : _ ∈ exprsOf parts := List.mem_filterMap.2 ⟨part, hmem, by rw [heq]⟩
    exact ⟨Phrase.everywhere_of_solid trivial
      (List.forall_mem_singleton.2 (h.solid_expr (by decide) hexpr)), rfl⟩
  · contradiction

theorem shaped_piece (h : Shaping text rule whole parts)
    {meaning : Meaning} (hmeaning : assemblePiece rule whole parts = .ok meaning)
    (hstmt : Script.ofKind .stmt rule = false) (hexpr : Script.ofKind .expr rule = false)
    (hpattern : Script.ofKind .pattern rule = false) : Part.Shaped { whole with meaning } := by
  have hnone : ∀ phrase ∈ ([] : List Phrase), phrase.Everywhere Phrase.WellShaped :=
    List.forall_mem_nil _
  have hrule := h.rule_eq
  cases rule with
  | paramList =>
      obtain rfl := Except.ok.inj hmeaning
      exact ⟨List.forall_mem_map.2 fun _ => everywhere_pattern h.shaped, trivial⟩
  | patternSlot =>
      obtain rfl := Except.ok.inj hmeaning
      refine ⟨List.forall_mem_map.2 fun value hvalue => ?_, trivial⟩
      exact h.firstPattern (Option.mem_toList.1 hvalue)
  | patternPair =>
      dsimp only [assemblePiece] at hmeaning
      split at hmeaning
      · rename_i key target heq
        obtain rfl := Except.ok.inj hmeaning
        exact ⟨everywhere_meaning h.shaped (.pattern target) (by simp [heq]), trivial⟩
      · contradiction
  | patternProp =>
      dsimp only [assemblePiece] at hmeaning
      split at hmeaning
      · obtain rfl := Except.ok.inj hmeaning
        exact ⟨(h.shaped _ List.mem_cons_self).phrases, trivial⟩
      · obtain rfl := Except.ok.inj hmeaning
        exact ⟨(h.shaped _ List.mem_cons_self).phrases, trivial⟩
      · obtain ⟨name, -, hmeaning⟩ := need_bind hmeaning
        obtain rfl := Except.ok.inj hmeaning
        exact ⟨(h.shaped _ List.mem_cons_self).phrases, trivial⟩
      · contradiction
  | declarator =>
      obtain ⟨target, htarget, hmeaning⟩ := need_bind hmeaning
      obtain rfl := Except.ok.inj hmeaning
      refine ⟨List.forall_mem_singleton.2 (Phrase.everywhere_of_solid trivial
        (List.forall_mem_cons.2 ⟨⟨h.firstPattern htarget,
        Phrase.isUnpacking_of_isTarget (h.isTarget (by decide) htarget)⟩, ?_⟩)), trivial⟩
      exact solid_toList fun value hvalue => h.firstExpr (by decide) hvalue
  | varDecl =>
      obtain ⟨keyword, -, hmeaning⟩ := need_bind hmeaning
      obtain rfl := Except.ok.inj hmeaning
      refine ⟨List.forall_mem_map.2 (everywhere_declarators h.shaped), ?_⟩
      obtain ⟨part, hpart, value, hvalue⟩ := h.exists_meaning .declarator (by decide)
      exact List.ne_nil_of_mem (a := value) (List.mem_filterMap.2 ⟨part, hpart, by rw [hvalue]⟩)
  | forInit =>
      obtain rfl := Except.ok.inj hmeaning
      refine ⟨List.forall_mem_map.2 fun value hvalue => ?_, fun value hvalue => ?_⟩
      · exact (h.shaped_init value (Option.mem_toList.1 hvalue)).1
      · exact (h.shaped_init value hvalue).2
  | forTest | forUpdate =>
      obtain rfl := Except.ok.inj hmeaning
      have hsolid (value : Expr) (hvalue : value ∈ (exprsOf parts).head?) :=
        h.firstExpr (by decide) hvalue
      exact ⟨List.forall_mem_map.2 fun value hvalue =>
        (hsolid value (Option.mem_toList.1 hvalue)).everywhere,
        fun value hvalue => (hsolid value hvalue).plain⟩
  | switchCase =>
      obtain rfl := Except.ok.inj hmeaning
      refine ⟨List.forall_mem_singleton.2 (Phrase.everywhere_of_solid trivial
        (List.forall_mem_append.2 ⟨solid_toList fun value hvalue => ?_, ?_⟩)), trivial⟩
      · exact h.firstExpr (by decide) hvalue
      · exact List.forall_mem_map.2 fun _ => solid_stmt h.shaped
  | catchClause =>
      obtain ⟨body, hbody, hmeaning⟩ := need_bind hmeaning
      obtain rfl := Except.ok.inj hmeaning
      have hmem := List.mem_of_mem_head? hbody
      exact ⟨List.forall_mem_singleton.2 (solid_stmt h.shaped hmem).everywhere,
        h.isBlock (by decide) hmem⟩
  | methodDef =>
      obtain ⟨name, -, hmeaning⟩ := need_bind hmeaning
      obtain ⟨body, hbody, hmeaning⟩ := need_bind hmeaning
      obtain rfl := Except.ok.inj hmeaning
      have hmem := List.mem_of_mem_head? hbody
      have hblock := h.isBlock (by decide) hmem
      have hsolid : (Phrase.ofBody (.block body)).Solid := solid_stmt h.shaped hmem
      refine ⟨List.forall_mem_singleton.2 (Phrase.everywhere_method_iff.2
        (everywhere_function h.shaped hsolid (fun block heq => ?_) _ false whole.span)),
        _, _, body, _, rfl, hblock⟩
      obtain rfl := FunctionBody.block.inj heq
      exact hblock
  | classField =>
      obtain ⟨name, -, hmeaning⟩ := need_bind hmeaning
      obtain rfl := Except.ok.inj hmeaning
      exact ⟨List.forall_mem_singleton.2 (Phrase.everywhere_of_solid trivial
        (solid_toList fun value hvalue => h.firstExpr (by decide) hvalue)),
        trivial⟩
  | classMember =>
      dsimp only [assemblePiece] at hmeaning
      split at hmeaning
      · rename_i name isStatic function heq
        obtain rfl := Except.ok.inj hmeaning
        obtain ⟨part, rest, rfl, hpart, -⟩ := List.map_eq_cons_iff.1 heq
        obtain ⟨hphrases, hsettled⟩ := h.shaped part List.mem_cons_self
        rw [hpart] at hphrases
        rw [Part.Settled, hpart] at hsettled
        exact ⟨List.forall_mem_singleton.2 (Phrase.everywhere_of_solid hsettled
          (List.forall_mem_singleton.2 ⟨hphrases _ List.mem_cons_self, rfl⟩)), trivial⟩
      · rename_i value heq
        obtain rfl := Except.ok.inj hmeaning
        exact ⟨everywhere_meaning h.shaped (.member value) (by simp [heq]), trivial⟩
      · obtain rfl := Except.ok.inj hmeaning
        exact ⟨hnone, trivial⟩
      · contradiction
  | propertyPair =>
      dsimp only [assemblePiece] at hmeaning
      split at hmeaning
      · rename_i keySpan _ _ _ _ _ value
        obtain rfl := Except.ok.inj hmeaning
        have hvalue := everywhere_meaning h.shaped (.expr value) (by simp)
        exact ⟨List.forall_mem_singleton.2 ((hvalue _ List.mem_cons_self).ofProperty keySpan),
          trivial⟩
      · contradiction
  | propertyShorthand =>
      obtain rfl := Except.ok.inj hmeaning
      exact ⟨List.forall_mem_singleton.2
        (Phrase.everywhere_of_solid trivial (List.forall_mem_nil _)), trivial⟩
  | property =>
      dsimp only [assemblePiece] at hmeaning
      split at hmeaning
      · obtain rfl := Except.ok.inj hmeaning
        exact ⟨(h.shaped _ List.mem_cons_self).phrases, trivial⟩
      · rename_i innerSpan name isStatic function
        obtain rfl := Except.ok.inj hmeaning
        have hfunction := (h.shaped _ List.mem_cons_self).phrases _ List.mem_cons_self
        exact ⟨List.forall_mem_singleton.2
          ((Phrase.everywhere_method_iff.1 hfunction).ofProperty innerSpan), trivial⟩
      · rename_i innerSpan value
        obtain rfl := Except.ok.inj hmeaning
        have hvalue := (h.shaped _ List.mem_cons_self).phrases _ List.mem_cons_self
        exact ⟨List.forall_mem_singleton.2 (hvalue.ofProperty innerSpan), trivial⟩
      · contradiction
  | propertyKey =>
      dsimp only [assemblePiece] at hmeaning
      split at hmeaning
      · obtain rfl := Except.ok.inj hmeaning
        exact ⟨hnone, trivial⟩
      · obtain rfl := Except.ok.inj hmeaning
        exact ⟨hnone, trivial⟩
      · contradiction
  | arrowParams =>
      dsimp only [assemblePiece] at hmeaning
      split at hmeaning
      · obtain rfl := Except.ok.inj hmeaning
        exact ⟨List.forall_mem_singleton.2
          (Phrase.everywhere_of_solid trivial (List.forall_mem_nil _)), trivial⟩
      · obtain rfl := Except.ok.inj hmeaning
        exact ⟨List.forall_mem_map.2 fun _ => everywhere_param h.shaped, trivial⟩
  | arrowBody =>
      dsimp only [assemblePiece] at hmeaning
      split at hmeaning
      · rename_i body heq
        obtain rfl := Except.ok.inj hmeaning
        obtain ⟨part, rest, rfl, hpart, -⟩ := List.map_eq_cons_iff.1 heq
        have hmem : body ∈ stmtsOf (part :: rest) :=
          List.mem_filterMap.2 ⟨part, List.mem_cons_self, by rw [hpart]⟩
        exact ⟨List.forall_mem_singleton.2 (solid_stmt h.shaped hmem).everywhere,
          h.isBlock (by decide) hmem⟩
      · rename_i value heq
        obtain rfl := Except.ok.inj hmeaning
        obtain ⟨part, rest, rfl, hpart, -⟩ := List.map_eq_cons_iff.1 heq
        have hmem : value ∈ exprsOf (part :: rest) :=
          List.mem_filterMap.2 ⟨part, List.mem_cons_self, by rw [hpart]⟩
        have hsolid := h.solid_expr (by decide) hmem
        exact ⟨List.forall_mem_singleton.2 hsolid.everywhere, hsolid.plain⟩
      · contradiction
  | trailer =>
      dsimp only [assemblePiece] at hmeaning
      split at hmeaning
      · rename_i part
        obtain rfl := Except.ok.inj hmeaning
        obtain ⟨hphrases, hsettled⟩ := h.shaped part List.mem_cons_self
        have hcategory := h.category_trailer
        have hother : whole.rule ≠ .regularAccess := by
          rw [hrule]
          decide
        refine ⟨hphrases, ?_⟩
        unfold Part.Settled at hsettled ⊢
        cases hpart : part.meaning with
        | args => exact hother
        | access => exact fun hrule => absurd hrule hother
        | index value =>
            rw [hpart] at hsettled
            exact ⟨hother, hsettled.2⟩
        | _ =>
            rw [hpart] at hcategory
            contradiction
      · contradiction
  | callSuffix =>
      obtain rfl := Except.ok.inj hmeaning
      refine ⟨List.forall_mem_map.2 fun _ => everywhere_arg h.shaped, ?_⟩
      change whole.rule ≠ .regularAccess
      rw [hrule]
      decide
  | argList =>
      obtain rfl := Except.ok.inj hmeaning
      exact ⟨List.forall_mem_map.2 fun _ => everywhere_expr h.shaped, trivial⟩
  | optionalAccess =>
      obtain ⟨name, -, hmeaning⟩ := need_bind hmeaning
      obtain rfl := Except.ok.inj hmeaning
      exact ⟨hnone, fun hregular => absurd (hrule.symm.trans hregular) (by decide)⟩
  | regularAccess =>
      obtain ⟨name, -, hmeaning⟩ := need_bind hmeaning
      obtain rfl := Except.ok.inj hmeaning
      exact ⟨hnone, fun _ => rfl⟩
  | indexAccess =>
      obtain ⟨value, hvalue, hmeaning⟩ := need_bind hmeaning
      obtain rfl := Except.ok.inj hmeaning
      have hsolid := h.firstExpr (by decide) hvalue
      refine ⟨List.forall_mem_singleton.2 hsolid.everywhere, ?_, hsolid.plain⟩
      rw [hrule]
      decide
  | _ =>
      first
        | exact absurd hstmt (by decide)
        | exact absurd hexpr (by decide)
        | exact absurd hpattern (by decide)
        | obtain rfl := Except.ok.inj hmeaning
          exact ⟨hnone, trivial⟩

/-- The meaning of a tree is well-shaped if those of its parts are. -/
theorem shaped_assemble (h : Shaping text rule whole parts)
    {meaning : Meaning} (hmeaning : assemble rule whole parts = .ok meaning) :
    Part.Shaped { whole with meaning } := by
  have hisStmt := isSome_assembleStmt? rule whole parts
  have hisExpr := isSome_assembleExpr? rule whole parts
  have hisPattern := isSome_assemblePattern? rule whole parts
  unfold assemble at hmeaning
  split at hmeaning
  · rename_i hstmt
    obtain ⟨stmt, rfl, rfl⟩ := map_ok hmeaning
    refine ⟨List.forall_mem_singleton.2 (h.everywhere_stmt hstmt), fun hrule => ?_⟩
    rw [h.rule_eq] at hrule
    exact h.isBlock_assembled hstmt hrule
  · rename_i hstmt
    split at hmeaning
    · rename_i hexpr
      obtain ⟨e, rfl, rfl⟩ := map_ok hmeaning
      refine ⟨List.forall_mem_singleton.2 (h.everywhere_assembled_expr hexpr),
        fun hrule => ?_, fun hrule => ?_⟩
      · rw [h.rule_eq] at hrule
        exact (h.solid_assembled hrule hexpr).plain
      · obtain rfl := h.rule_eq.symm.trans hrule
        exact h.isConstructorName_assembled hexpr
    · rename_i hexpr
      split at hmeaning
      · rename_i hpattern
        obtain ⟨pattern, rfl, rfl⟩ := map_ok hmeaning
        exact ⟨List.forall_mem_singleton.2 (h.everywhere_assembled_pattern hpattern),
          trivial⟩
      · rename_i hpattern
        rw [hstmt] at hisStmt
        rw [hexpr] at hisExpr
        rw [hpattern] at hisPattern
        exact h.shaped_piece hmeaning hisStmt.symm hisExpr.symm hisPattern.symm

end Shaping

/-! ## Texts -/

mutual

/-- The meaning of a tree that the grammar gives is well-shaped. -/
theorem shaped_ofTree {text : List Char} (tree : Peg.Tree Rule) (hgrown : Grown text tree)
    {part : Part} (h : Part.ofTree (.ofText text) tree = .ok part) : part.Shaped := by
  match tree with
  | .node rule start stop children =>
      unfold Part.ofTree at h
      obtain ⟨parts, hparts, h⟩ := bind_ok h
      obtain ⟨meaning, hmeaning, h⟩ := bind_ok h
      obtain rfl := Except.ok.inj h
      have hstanding := (fits_ofTrees children hgrown.children hparts).standing hgrown
      have hshaping : Shaping text _ _ _ :=
        ⟨hstanding, shaped_ofTrees children hgrown.children hparts⟩
      exact hshaping.shaped_assemble hmeaning

theorem shaped_ofTrees {text : List Char} (trees : List (Peg.Tree Rule))
    (hgrown : ∀ tree ∈ trees, Grown text tree) {parts : List Part}
    (h : Part.ofTrees (.ofText text) trees = .ok parts) : ∀ part ∈ parts, part.Shaped := by
  match trees with
  | [] =>
      obtain rfl := Except.ok.inj h
      exact List.forall_mem_nil _
  | tree :: rest =>
      unfold Part.ofTrees at h
      obtain ⟨part, hpart, h⟩ := bind_ok h
      obtain ⟨parts, hparts, h⟩ := bind_ok h
      obtain rfl := Except.ok.inj h
      obtain ⟨htree, hrest⟩ := List.forall_mem_cons.1 hgrown
      exact List.forall_mem_cons.2
        ⟨shaped_ofTree tree htree hpart, shaped_ofTrees rest hrest hparts⟩

end

/-- The statements of a text are well-shaped. -/
theorem solid_parse {source : String} {program : Program} (h : parse source = .ok program) :
    ∀ stmt ∈ program.body, (Phrase.stmt stmt).Solid := by
  obtain ⟨_, stop, children, parts, -, hgrown, hparts, rfl⟩ := exists_parts h
  exact fun stmt => solid_stmt (shaped_ofTrees children hgrown.children hparts)

/-- **All that is read is well-shaped.**  Each phrase of a text that is read, at any depth, has
the shape that belongs to it: a template has one more piece than expressions, a sequence has two
expressions or more, a declaration declares something, bodies that have to be blocks are blocks,
a counting loop starts with a declaration or an expression, methods are functions with their
names, and constructors are named.  And what spreads or collects several values stands where
there may be several. -/
theorem wellShaped_parse {source : String} {program : Program} (h : parse source = .ok program) :
    program.Everywhere Phrase.WellShaped :=
  fun stmt hstmt => (solid_parse h stmt hstmt).everywhere

/-- A script with a method, a loop, a spread, a rest, a constructor and a template. -/
theorem wellShaped_parse_class :
    let source :=
      "class A \x7b m(...r) \x7b\x7d \x7d for (let i = 0; ; f(...a)) new n.A(`$\x7bx\x7d`)"
    ∃ program, parse source = .ok program ∧ program.Everywhere Phrase.WellShaped := by
  intro source
  have hok : (parse source).isOk = true := by decide +kernel
  obtain ⟨program, hparse⟩ := exists_program hok
  exact ⟨program, hparse, wellShaped_parse hparse⟩

end EventLoop.Script
