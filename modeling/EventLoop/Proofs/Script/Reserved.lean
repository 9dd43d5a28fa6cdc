import EventLoop.Proofs.Script.Reading

/-!
# Names in programs

Whatever a program names, it names with an identifier, which is a name and no keyword
but `instanceof` (`names_parse`).  Conversely every name that is read to its end is an
identifier, unless it is one of the other keywords.
-/

namespace EventLoop.Script

open Peg

/-- **Reserved words are no names.**  The variables, functions, classes and labels of a
program have names that are no keywords but `instanceof`, at any depth.  And where a name
stands, the rule for identifiers reads it to its end if and only if it is no keyword but
`instanceof`. -/
theorem names_parse {source : String} {program : Program} (h : parse source = .ok program) :
    (program.Everywhere fun phrase => ∀ name ∈ phrase.names,
        IsName name.toList ∧ (name ∈ keywords → name = "instanceof")) ∧
      ∀ (name : String) (place stop : Cursor), IsName name.toList →
        place.drop? name.toList = some stop → startsInName stop.rest = false →
        ((∃ trees, Matches grammar .spaced (.rule .identifier) place ⟨stop, trees⟩) ↔
          (name ∈ keywords → name = "instanceof")) := by
  refine ⟨fun stmt hstmt => ?_, fun name place stop hname hdrop hend => ?_⟩
  · have hsound := (placed_parse h).1.sound (.stmt stmt) (List.mem_map_of_mem hstmt)
    refine hsound.imp fun phrase hphrase name hname => ?_
    obtain ⟨hisName, hfree⟩ := hphrase.accepted name hname
    exact ⟨hisName, isReserved_eq_false_iff.1 hfree⟩
  · rw [accepts_identifier_iff hname hdrop hend, isReserved_eq_false_iff]

/-- The name of the expression that a script consists of. -/
def nameOf? (source : String) : Option String :=
  match parse source with
  | .ok ⟨[.exprStmt (.ident name _) _], _⟩ => some name
  | _ => none

theorem parse_of_nameOf? {source name : String} (h : nameOf? source = some name) :
    ∃ span whole range, parse source = .ok ⟨[.exprStmt (.ident name span) whole], range⟩ := by
  unfold nameOf? at h
  split at h
  · rename_i hparse
    rw [← Option.some.inj h]
    exact ⟨_, _, _, hparse⟩
  · contradiction

/-- A name that starts like a keyword. -/
theorem names_parse_instance :
    ∃ program, parse "instance" = .ok program ∧
      (program.Everywhere fun phrase => ∀ name ∈ phrase.names,
        IsName name.toList ∧ (name ∈ keywords → name = "instanceof")) := by
  have hname : nameOf? "instance" = some "instance" := by decide +kernel
  obtain ⟨span, whole, range, hparse⟩ := parse_of_nameOf? hname
  exact ⟨_, hparse, (names_parse hparse).1⟩

/-- The keyword `instanceof` is a script of its own, which is a name. -/
theorem keyword_named :
    ¬ ∀ source program, parse source = .ok program →
      program.Everywhere fun phrase => ∀ name ∈ phrase.names, name ∉ keywords := by
  intro hall
  have hname : nameOf? "instanceof" = some "instanceof" := by decide +kernel
  obtain ⟨span, whole, range, hparse⟩ := parse_of_nameOf? hname
  have hstmt := hall _ _ hparse _ List.mem_cons_self
  have hident := (hstmt.inside (.expr (.ident "instanceof" span)) List.mem_cons_self).here
  exact hident "instanceof" List.mem_cons_self (by decide)

end EventLoop.Script
