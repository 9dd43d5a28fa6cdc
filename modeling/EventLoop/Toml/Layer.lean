import EventLoop.Setting.Basic
import EventLoop.Toml.Document

/-!
# Settings from TOML

The settings that a document holds.  A moment is a text, and a table is a
group, with one exception: a table whose first name is `momentMark` stands for
a moment, which the text under that name denotes.  Whatever else the table
holds does not count, but a text that denotes no moment, or something that is
no text, makes the whole document unreadable.
-/

namespace EventLoop.Toml

/-- The name that makes a table a moment. -/
def momentMark : String := "$__toml_private_datetime"

/-- The moment that a value under `momentMark` denotes. -/
def markedMoment? : Value → Option Setting
  | .text value => (readMoment? textLimits value.toList).map .text
  | _ => none

mutual

/-- The setting that a value stands for. -/
def settingOf? : Value → Option Setting
  | .text value => some (.text value)
  | .integer value => some (.integer value)
  | .number value => some (.number value)
  | .bool value => some (.bool value)
  | .moment written => some (.text written)
  | .list elements => (settingsOf? elements).map .list
  | .table [] => some (.group [])
  | .table ((name, value) :: rest) =>
    if name = momentMark then markedMoment? value
    else do
      let setting ← settingOf? value
      return .group (insertEntry name setting (← groupOf? rest))

/-- The settings that the elements of a list stand for. -/
def settingsOf? : List Value → Option (List Setting)
  | [] => some []
  | value :: rest => do return (← settingOf? value) :: (← settingsOf? rest)

/-- The settings of a table that stands for a group. -/
def groupOf? : List (String × Value) → Option (List (String × Setting))
  | [] => some []
  | (name, value) :: rest => do
    let setting ← settingOf? value
    return insertEntry name setting (← groupOf? rest)

end

/-- The settings of a text, if it is a document and stands for a group. -/
def readLayer? (text : String) : Option (List (String × Setting)) := do
  match ← settingOf? (.table (← read? text)) with
  | .group entries => return entries
  | _ => none

end EventLoop.Toml
