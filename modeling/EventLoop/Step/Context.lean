import EventLoop.Script.Render
import EventLoop.Step.Basic

/-!
# What is known while steps are made

A script is walked once, in the order of its text.  The walk collects the
steps made so far, the functions declared so far and the values bound so far;
the last two are what the steps to come are classified against.

The constructs that enclose a place of the script are its ancestry, the
nearest one first.
-/

namespace EventLoop

/-- A declared function. -/
structure FunctionInfo where
  name : String
  params : List String
  isAsync : Bool
  sourceLine : Nat
  deriving DecidableEq

/-- The record of a declared function. -/
def FunctionInfo.toJson (info : FunctionInfo) : Json :=
  .object
    [("name", .text info.name), ("params", .array (info.params.map .text)),
     ("isAsync", .bool info.isAsync), ("sourceLine", .nat info.sourceLine)]

/-- The steps, functions and values of a script, as far as it has been
walked. -/
structure Extraction where
  steps : List Step := []
  functions : Table FunctionInfo := .empty
  bindings : Table Value := .empty

namespace Extraction

/-- Nothing is known yet. -/
def empty : Extraction := {}

/-- Adds a step and the values it binds. -/
def push (known : Extraction) (step : Step) : Extraction :=
  { known with
    steps := known.steps ++ [step]
    bindings := known.bindings.insertAll step.boundVariables.entries }

/-- Adds a function. -/
def declare (known : Extraction) (info : FunctionInfo) : Extraction :=
  { known with functions := known.functions.insert info.name info }

end Extraction

/-- A construct that encloses a place of a script. -/
inductive Ancestor where
  | function (name : String)
  /-- A function handed to the call of another one. -/
  | callback (owner : String)
  | conditional
  | loop
  | tryBlock
  deriving DecidableEq

/-- Where a place is, as descriptions say it. -/
def Ancestor.describe : Ancestor → String
  | .function name => "in " ++ name ++ "()"
  | .callback owner => "in " ++ owner ++ " callback"
  | .conditional => "in conditional branch"
  | .loop => "in loop body"
  | .tryBlock => "in try block"

/-- What a step is made from. -/
inductive Node where
  | stmt (value : Script.Stmt)
  | expr (value : Script.Expr)

end EventLoop
