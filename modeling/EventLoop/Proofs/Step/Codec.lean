import EventLoop.Proofs.Table
import EventLoop.Step.Record

/-!
# Which records of steps read back

A record of a step reads back as the step, or it does not read back at all.  Which of the
two it is depends on the numbers of the step only (`Step.isRecordable`): its line and its
delay have to fit a record, and the numbers that it binds have to be finite, as JSON has
no other ones.  All else that a step can hold reads back whatever it is
(`Step.ofJson?_toJson`).
-/

namespace EventLoop

/-! ## Values -/

/-- Whether a value is no number that JSON lacks. -/
def Value.isFinite : Value → Bool
  | .number value => value.isFinite
  | _ => true

/-- Only a number that is not finite is lost. -/
theorem Value.ofJson?_toJson (value : Value) :
    ofJson? value.toJson = if value.isFinite then some value else none := by
  cases value with
  | number x =>
      change ofJson? (.object [("t", .text "Num"), ("v", .number x)]) =
        if x.isFinite then some (.number x) else none
      rw [Json.number]
      split <;> rfl
  | _ => rfl

/-- Whether a table has no number that JSON lacks. -/
def Table.isFinite (table : Table Value) : Bool :=
  table.entries.all fun entry => entry.2.isFinite

theorem readEntries_toJson (entries : List (String × Value)) :
    ((entries.map fun entry => (entry.1, entry.2.toJson)).mapM fun member =>
        (Value.ofJson? member.2).map fun value => (member.1, value)) =
      if entries.all fun entry => entry.2.isFinite then some entries else none := by
  induction entries with
  | nil => rfl
  | cons entry rest ih =>
      rw [List.map_cons, List.mapM_cons, ih, Value.ofJson?_toJson, List.all_cons]
      cases entry.2.isFinite with
      | false => rfl
      | true => cases rest.all fun entry => entry.2.isFinite <;> rfl

namespace Step

theorem readVariables?_toJson (table : Table Value) :
    readVariables? (.object (table.entries.map fun entry => (entry.1, entry.2.toJson))) =
      if table.isFinite then some table else none := by
  rw [readVariables?, readEntries_toJson]
  unfold Table.isFinite
  split
  · rw [Option.map_some, Table.ofList_entries]
  · rfl

/-! ## Names and numbers -/

theorem readKind?_name (kind : NodeKind) : readKind? (.text kind.name) = some kind := by
  cases kind <;> rfl

theorem readAction?_name (action : Action) : readAction? (.text action.name) = some action := by
  cases action <;> rfl

theorem ofName_name (queue : Queue) : Queue.ofName queue.name = queue := by
  cases queue <;> rfl

theorem readPriority?_name (priority : Priority) :
    readPriority? (.text priority.name) = some priority := by
  cases priority <;> rfl

theorem readNat?_nat (n : Nat) :
    readNat? (.nat n) = if n ≤ maxRecordInt then some n else none := by
  unfold readNat? Json.nat
  have hiff : (0 ≤ (n : Int) ∧ (n : Int) ≤ maxRecordInt) ↔ n ≤ maxRecordInt := by omega
  simp only [hiff, Int.toNat_natCast]

/-! ## Steps -/

/-- Whether all numbers of a step fit its record. -/
def isRecordable (step : Step) : Bool :=
  decide (step.sourceLine ≤ maxRecordInt) && decide (step.delayMs ≤ maxRecordInt)
    && step.boundVariables.isFinite

/-- The members of a record that may be missing. -/
def optionalMembers (step : Step) : List (String × Json) :=
  Json.optional "outputPayload" .text step.outputPayload
    ++ if step.boundVariables.isEmpty then []
       else [("boundVariables",
         .object (step.boundVariables.entries.map fun entry => (entry.1, entry.2.toJson)))]

theorem optional_payload (step : Step) :
    optional step.optionalMembers "outputPayload" readPayload? none = some step.outputPayload := by
  unfold optional optionalMembers
  cases step.outputPayload <;> cases step.boundVariables.isEmpty <;> rfl

theorem optional_variables (step : Step) :
    optional step.optionalMembers "boundVariables" readVariables? .empty =
      if step.boundVariables.isFinite then some step.boundVariables else none := by
  have hlookup : step.optionalMembers.lookup "boundVariables" =
      if step.boundVariables.isEmpty then none
      else some (.object (step.boundVariables.entries.map fun entry =>
        (entry.1, entry.2.toJson))) := by
    unfold optionalMembers
    cases step.outputPayload <;> cases step.boundVariables.isEmpty <;> rfl
  rw [optional, hlookup]
  cases hempty : step.boundVariables.isEmpty with
  | false => exact readVariables?_toJson step.boundVariables
  | true =>
      have htable : step.boundVariables = .empty := Table.ext (List.isEmpty_iff.1 hempty)
      rw [htable]
      rfl

/-- **A record reads back or is refused.**  The record of a step reads back as that step if
the numbers of the step fit a record, and it does not read back otherwise. -/
theorem ofJson?_toJson (step : Step) :
    ofJson? step.toJson = if step.isRecordable then some step else none := by
  have hread : ofJson? step.toJson =
      ((readKind? (.text step.kind.name)).bind fun kind =>
        (readNat? (.nat step.sourceLine)).bind fun sourceLine =>
        (readAction? (.text step.action.name)).bind fun action =>
        (readNat? (.nat step.delayMs)).bind fun delayMs =>
        (readPriority? (.text step.priority.name)).bind fun priority =>
        (optional step.optionalMembers "outputPayload" readPayload? none).bind fun outputPayload =>
        (optional step.optionalMembers "boundVariables" readVariables? .empty).bind
          fun boundVariables =>
        some { step with
          kind, sourceLine, action, delayMs, priority, outputPayload, boundVariables
          targetQueue := .ofName step.targetQueue.name }) := rfl
  rw [hread, readKind?_name, readAction?_name, readPriority?_name, ofName_name, readNat?_nat,
    readNat?_nat, optional_payload, optional_variables, isRecordable]
  by_cases hline : step.sourceLine ≤ maxRecordInt
  · by_cases hdelay : step.delayMs ≤ maxRecordInt
    · cases step.boundVariables.isFinite <;> simp [hline, hdelay]
    · simp [hline, hdelay]
  · simp [hline]

end Step

end EventLoop
