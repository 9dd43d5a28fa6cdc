import EventLoop.Step.Basic

/-!
# Records of steps

A step is written as an object whose members have fixed names; a payload and
bound variables are left out where there are none.

The reader accepts more than the writer writes: unknown members, members in
any order, names of queues that do not exist (they mean the call stack), a
missing priority, a missing or empty payload, and the list of the members'
values instead of the object.  Whatever it accepts, it reads the step's own
record as the same step.
-/

namespace EventLoop.Step

/-- The largest integer of a record. -/
def maxRecordInt : Nat := 0xffffffffffffffff

/-- The record of a step. -/
def toJson (step : Step) : Json :=
  .object <|
    [("kind", .text step.kind.name),
     ("sourceLine", .nat step.sourceLine),
     ("description", .text step.description),
     ("action", .text step.action.name),
     ("isAsync", .bool step.isAsync),
     ("delayMs", .nat step.delayMs),
     ("targetQueue", .text step.targetQueue.name),
     ("priority", .text step.priority.name)]
    ++ Json.optional "outputPayload" .text step.outputPayload
    ++ if step.boundVariables.isEmpty then []
       else [("boundVariables",
         .object (step.boundVariables.entries.map fun entry => (entry.1, entry.2.toJson)))]

/-! ## Reading -/

/-- A natural number within the range of records. -/
def readNat? : Json → Option Nat
  | .int value => if 0 ≤ value ∧ value ≤ maxRecordInt then some value.toNat else none
  | _ => none

/-- A text. -/
def readText? : Json → Option String
  | .text value => some value
  | _ => none

/-- A truth value. -/
def readBool? : Json → Option Bool
  | .bool value => some value
  | _ => none

/-- The name of a kind of node. -/
def readKind? (value : Json) : Option NodeKind :=
  value.constantName?.bind fun name => NodeKind.all.find? (·.name = name)

/-- The name of an action. -/
def readAction? (value : Json) : Option Action :=
  value.constantName?.bind fun name => Action.all.find? (·.name = name)

/-- The name of a priority. -/
def readPriority? (value : Json) : Option Priority :=
  value.constantName?.bind fun name => [Priority.normal, .high].find? (·.name = name)

/-- A payload, where `null` is none. -/
def readPayload? : Json → Option (Option String)
  | .null => some none
  | .text value => some (some value)
  | _ => none

/-- An object of values. -/
def readVariables? : Json → Option (Table Value)
  | .object members =>
    (members.mapM fun (member : String × Json) =>
      (Value.ofJson? member.2).map fun value => (member.1, value)).map Table.ofList
  | _ => none

/-- The names of the members, in the order of a record that is a list. -/
def memberNames : List String :=
  ["kind", "sourceLine", "description", "action", "isAsync", "delayMs", "targetQueue",
   "priority", "outputPayload", "boundVariables"]

/-- The members of a record that is an object or a list. -/
def membersOf? : Json → Option (List (String × Json))
  | .object members => some members
  | .array elements =>
    if elements.length ≤ memberNames.length then some (memberNames.zip elements) else none
  | _ => none

/-- Reads a member that has to be there. -/
def required {α : Type} (members : List (String × Json)) (key : String)
    (read : Json → Option α) : Option α :=
  (members.lookup key).bind read

/-- Reads a member that may be missing, and then has a value of its own. -/
def optional {α : Type} (members : List (String × Json)) (key : String)
    (read : Json → Option α) (value : α) : Option α :=
  match members.lookup key with
  | some content => read content
  | none => some value

/-- Reads the record of a step. -/
def ofJson? (record : Json) : Option Step := do
  let members ← membersOf? record
  return {
    kind := ← required members "kind" readKind?
    sourceLine := ← required members "sourceLine" readNat?
    description := ← required members "description" readText?
    action := ← required members "action" readAction?
    isAsync := ← required members "isAsync" readBool?
    delayMs := ← required members "delayMs" readNat?
    targetQueue := Queue.ofName (← required members "targetQueue" readText?)
    priority := ← optional members "priority" readPriority? .normal
    outputPayload := ← optional members "outputPayload" readPayload? none
    boundVariables := ← optional members "boundVariables" readVariables? .empty }

end EventLoop.Step
