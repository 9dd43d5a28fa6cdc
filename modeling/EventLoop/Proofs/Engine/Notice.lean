import EventLoop.Proofs.Engine.Operation
import Mathlib.Data.List.Induction

/-!
# Notices and the log

An event is numbered by the log that records it; a `Notice` is an event before
that.  A log that is told some notices keeps the youngest of their events, as
many as it has room for (`tellAll_withCapacity`).

What an operation tells does not depend on what is on record already.  This is
what `Tells` says of an operation and some notices, and it relates the runs of
engines that differ in the room for their events only.
-/

namespace EventLoop

/-- An event that is not yet numbered. -/
structure Notice where
  atMs : Nat
  taskId : Nat
  kind : TraceKind
  message : String

/-- The event of a notice at its position in the history. -/
def Notice.event (seq : Nat) (notice : Notice) : TraceEvent :=
  ⟨seq, notice.atMs, some notice.taskId, notice.kind, notice.message⟩

namespace TraceLog

/-- Records the event of a notice. -/
def tell (log : TraceLog) (notice : Notice) : TraceLog :=
  log.record notice.atMs (some notice.taskId) notice.kind notice.message

/-- Records the events of notices, one after the other. -/
def tellAll (log : TraceLog) (notices : List Notice) : TraceLog :=
  notices.foldl tell log

theorem tellAll_append (log : TraceLog) (first second : List Notice) :
    log.tellAll (first ++ second) = (log.tellAll first).tellAll second :=
  List.foldl_append

/-- A log holds the end of the history that it was told. -/
theorem tellAll_withCapacity (capacity : Nat) (notices : List Notice) :
    (withCapacity capacity).tellAll notices =
      { capacity := max capacity 1
        nextSeq := notices.length
        events := (notices.mapIdx Notice.event).drop (notices.length - max capacity 1) } := by
  induction notices using List.reverseRecOn with
  | nil => simp [tellAll, withCapacity]
  | append_singleton notices notice ih =>
      have hroom : 1 ≤ max capacity 1 := Nat.le_max_right _ _
      generalize max capacity 1 = room at ih hroom ⊢
      -- once the log is full, each event displaces the oldest one
      have hdrop : notices.length - room +
          ((notices.mapIdx Notice.event).length - (notices.length - room) + 1 - room) =
            notices.length + 1 - room := by
        rw [List.length_mapIdx]
        omega
      rw [tellAll_append, ih]
      simp only [tellAll, List.foldl_cons, List.foldl_nil, tell, record, nextEvent,
        List.length_append, List.length_singleton, List.length_drop, List.drop_drop, hdrop,
        List.mapIdx_concat]
      rw [List.drop_append_of_le_length (by rw [List.length_mapIdx]; omega)]
      rfl

/-- A log that is cleared has forgotten all that it was told. -/
theorem clear_tellAll (capacity : Nat) (notices : List Notice) :
    ((withCapacity capacity).tellAll notices).clear = withCapacity capacity := by
  rw [tellAll_withCapacity]
  rfl

end TraceLog

namespace Engine

/-- An action on an engine gives notices of what it does, at the time that it
leaves, whatever is on record before. -/
structure Tells {α : Type} (act : Engine → α × Engine) (engine : Engine) (notices : List Notice) :
    Prop where
  records : ∀ trace, act { engine with trace } =
    ((act engine).1, { (act engine).2 with trace := trace.tellAll notices })
  at_now : ∀ notice ∈ notices, notice.atMs = (act engine).2.now

namespace Tells

variable {α β : Type} {act : Engine → α × Engine} {engine : Engine} {notices : List Notice}

/-- What a caller makes of the result is not told. -/
theorem map (h : Tells act engine notices) (wrap : α → β) :
    Tells (fun state => (wrap (act state).1, (act state).2)) engine notices :=
  ⟨fun trace => by simp only [h.records trace], h.at_now⟩

end Tells

end Engine

end EventLoop
