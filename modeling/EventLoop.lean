import EventLoop.CommandLine.Arguments
import EventLoop.CommandLine.Directory
import EventLoop.CommandLine.Help
import EventLoop.CommandLine.Listing
import EventLoop.CommandLine.Session
import EventLoop.CommandLine.Variables
import EventLoop.Config.Basic
import EventLoop.Config.Load
import EventLoop.Config.Text
import EventLoop.Engine.Basic
import EventLoop.Engine.Clock
import EventLoop.Engine.Queues
import EventLoop.Engine.Record
import EventLoop.Engine.Task
import EventLoop.Engine.Timers
import EventLoop.Engine.Trace
import EventLoop.Json
import EventLoop.Main
import EventLoop.Number.Binary
import EventLoop.Number.Decimal
import EventLoop.Number.Integer
import EventLoop.Peg.Grammar
import EventLoop.Peg.Match
import EventLoop.Proofs.Engine.Advance
import EventLoop.Proofs.Engine.Arrival
import EventLoop.Proofs.Engine.Containers
import EventLoop.Proofs.Engine.Discipline
import EventLoop.Proofs.Engine.Elapsing
import EventLoop.Proofs.Engine.History
import EventLoop.Proofs.Engine.Move
import EventLoop.Proofs.Engine.Notice
import EventLoop.Proofs.Engine.Occurrence
import EventLoop.Proofs.Engine.Operation
import EventLoop.Proofs.Engine.Partition
import EventLoop.Proofs.Engine.Passage
import EventLoop.Proofs.Engine.Refusal
import EventLoop.Proofs.Engine.Registry
import EventLoop.Proofs.Engine.Release
import EventLoop.Proofs.Engine.Renumbering
import EventLoop.Proofs.Engine.Reset
import EventLoop.Proofs.Engine.Schedule
import EventLoop.Proofs.Engine.Story
import EventLoop.Proofs.Engine.Timetable
import EventLoop.Proofs.Engine.Turn
import EventLoop.Proofs.Number.Finite
import EventLoop.Proofs.Number.Nearest
import EventLoop.Proofs.Peg.Adequacy
import EventLoop.Proofs.Peg.Attempts
import EventLoop.Proofs.Peg.Conclusion
import EventLoop.Proofs.Peg.Count
import EventLoop.Proofs.Peg.Derivation
import EventLoop.Proofs.Peg.Language
import EventLoop.Proofs.Peg.Progress
import EventLoop.Proofs.Peg.Record
import EventLoop.Proofs.Peg.Shape
import EventLoop.Proofs.Peg.Shift
import EventLoop.Proofs.Peg.Soundness
import EventLoop.Proofs.Script.Acceptance
import EventLoop.Proofs.Script.Assembly
import EventLoop.Proofs.Script.Behind
import EventLoop.Proofs.Script.Binding
import EventLoop.Proofs.Script.Border
import EventLoop.Proofs.Script.Declared
import EventLoop.Proofs.Script.Detour
import EventLoop.Proofs.Script.Face
import EventLoop.Proofs.Script.Flatten
import EventLoop.Proofs.Script.Formula
import EventLoop.Proofs.Script.Founded
import EventLoop.Proofs.Script.Gaps
import EventLoop.Proofs.Script.Grouped
import EventLoop.Proofs.Script.Identifier
import EventLoop.Proofs.Script.Item
import EventLoop.Proofs.Script.Ladder
import EventLoop.Proofs.Script.LastResort
import EventLoop.Proofs.Script.Layout
import EventLoop.Proofs.Script.LeadingLines
import EventLoop.Proofs.Script.Legible
import EventLoop.Proofs.Script.Level
import EventLoop.Proofs.Script.Literal
import EventLoop.Proofs.Script.Names
import EventLoop.Proofs.Script.Nesting
import EventLoop.Proofs.Script.Operand
import EventLoop.Proofs.Script.Parentheses
import EventLoop.Proofs.Script.Part
import EventLoop.Proofs.Script.PartShift
import EventLoop.Proofs.Script.Phrase
import EventLoop.Proofs.Script.Pick
import EventLoop.Proofs.Script.Placed
import EventLoop.Proofs.Script.Placement
import EventLoop.Proofs.Script.Quoted
import EventLoop.Proofs.Script.Raw
import EventLoop.Proofs.Script.RawLine
import EventLoop.Proofs.Script.Readable
import EventLoop.Proofs.Script.Reading
import EventLoop.Proofs.Script.Refusal
import EventLoop.Proofs.Script.Regrouping
import EventLoop.Proofs.Script.Reserved
import EventLoop.Proofs.Script.RoundTrip
import EventLoop.Proofs.Script.Seam
import EventLoop.Proofs.Script.Series
import EventLoop.Proofs.Script.Shaped
import EventLoop.Proofs.Script.Shaping
import EventLoop.Proofs.Script.Shift
import EventLoop.Proofs.Script.Slots
import EventLoop.Proofs.Script.Spread
import EventLoop.Proofs.Script.Start
import EventLoop.Proofs.Script.Target
import EventLoop.Proofs.Script.Token
import EventLoop.Proofs.Script.Totality
import EventLoop.Proofs.Script.Tree
import EventLoop.Proofs.Script.WellShaped
import EventLoop.Proofs.Script.WholeWords
import EventLoop.Proofs.Script.Words
import EventLoop.Proofs.Script.Written
import EventLoop.Proofs.Simulation.Account
import EventLoop.Proofs.Simulation.Balance
import EventLoop.Proofs.Simulation.Chronicle
import EventLoop.Proofs.Simulation.Completion
import EventLoop.Proofs.Simulation.Console
import EventLoop.Proofs.Simulation.Countdown
import EventLoop.Proofs.Simulation.Driver
import EventLoop.Proofs.Simulation.FastForward
import EventLoop.Proofs.Simulation.History
import EventLoop.Proofs.Simulation.Ledger
import EventLoop.Proofs.Simulation.Length
import EventLoop.Proofs.Simulation.Once
import EventLoop.Proofs.Simulation.Order
import EventLoop.Proofs.Simulation.Phases
import EventLoop.Proofs.Simulation.Replay
import EventLoop.Proofs.Simulation.Service
import EventLoop.Proofs.Simulation.Termination
import EventLoop.Proofs.Source.Lines
import EventLoop.Proofs.Source.Place
import EventLoop.Proofs.Source.Position
import EventLoop.Proofs.Source.Shift
import EventLoop.Proofs.Source.Stretch
import EventLoop.Proofs.Step.Census
import EventLoop.Proofs.Step.Codec
import EventLoop.Proofs.Step.Coherence
import EventLoop.Proofs.Step.Declaration
import EventLoop.Proofs.Step.Defaults
import EventLoop.Proofs.Step.Face
import EventLoop.Proofs.Step.Flatten
import EventLoop.Proofs.Step.LeadingLines
import EventLoop.Proofs.Step.Leniency
import EventLoop.Proofs.Step.Lines
import EventLoop.Proofs.Step.Mistake
import EventLoop.Proofs.Step.Recordable
import EventLoop.Proofs.Step.Shift
import EventLoop.Proofs.Step.Sites
import EventLoop.Proofs.Step.Walk
import EventLoop.Proofs.Table
import EventLoop.Script.Grammar
import EventLoop.Script.Layout
import EventLoop.Script.Literal
import EventLoop.Script.Meaning
import EventLoop.Script.Parse
import EventLoop.Script.Placement
import EventLoop.Script.Program
import EventLoop.Script.Render
import EventLoop.Script.Rule
import EventLoop.Setting.Basic
import EventLoop.Setting.Path
import EventLoop.Simulation.Basic
import EventLoop.Simulation.Record
import EventLoop.Simulation.Ticker
import EventLoop.Source.Cursor
import EventLoop.Source.LineMap
import EventLoop.Source.Span
import EventLoop.Step.Basic
import EventLoop.Step.Classify
import EventLoop.Step.Context
import EventLoop.Step.Extract
import EventLoop.Step.Record
import EventLoop.Step.Resolve
import EventLoop.Table
import EventLoop.Text.Alphanumeric
import EventLoop.Text.Blank
import EventLoop.Text.Pad
import EventLoop.Text.Quoted
import EventLoop.Text.Start
import EventLoop.Toml.Document
import EventLoop.Toml.Layer
import EventLoop.Toml.Moment
import EventLoop.Toml.Quoted
import EventLoop.Toml.Scalar
import EventLoop.Toml.Table
import EventLoop.Toml.Value
import EventLoop.Toml.Writer
import EventLoop.Value
