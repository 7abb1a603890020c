import TapeMachine.Caller
import TapeMachine.Command
import TapeMachine.Command.Address
import TapeMachine.Command.Execute
import TapeMachine.Command.Flag
import TapeMachine.Command.Reach
import TapeMachine.Command.Session
import TapeMachine.Command.Verb
import TapeMachine.Config
import TapeMachine.Config.Value
import TapeMachine.Config.Yaml
import TapeMachine.Config.Yaml.Cursor
import TapeMachine.Config.Yaml.Meaning
import TapeMachine.Config.Yaml.Node
import TapeMachine.Config.Yaml.Scalar
import TapeMachine.Config.Yaml.Scanner
import TapeMachine.Config.Yaml.Token
import TapeMachine.Engine
import TapeMachine.Files
import TapeMachine.Hooks
import TapeMachine.Log.Level
import TapeMachine.Log.Record
import TapeMachine.Log.Run
import TapeMachine.Machine
import TapeMachine.Main
import TapeMachine.Metrics
import TapeMachine.Program.Comment
import TapeMachine.Program.Compile
import TapeMachine.Program.Draft
import TapeMachine.Program.Error
import TapeMachine.Program.Instruction
import TapeMachine.Program.Template
import TapeMachine.Program.Token
import TapeMachine.Proofs.Canonical.Compiled
import TapeMachine.Proofs.Canonical.RoundTrip
import TapeMachine.Proofs.Config.Overlay
import TapeMachine.Proofs.Config.Precedence
import TapeMachine.Proofs.Files
import TapeMachine.Proofs.Keyed
import TapeMachine.Proofs.Program.BlankLines
import TapeMachine.Proofs.Program.Blocks
import TapeMachine.Proofs.Program.Characters
import TapeMachine.Proofs.Program.Comments
import TapeMachine.Proofs.Program.Compiled
import TapeMachine.Proofs.Program.Drafts
import TapeMachine.Proofs.Program.FaultLines
import TapeMachine.Proofs.Program.Faults
import TapeMachine.Proofs.Program.Filling
import TapeMachine.Proofs.Program.FreeRows
import TapeMachine.Proofs.Program.Lexing
import TapeMachine.Proofs.Program.LineByLine
import TapeMachine.Proofs.Program.LineEndings
import TapeMachine.Proofs.Program.Merging
import TapeMachine.Proofs.Program.Nested
import TapeMachine.Proofs.Program.Pasting
import TapeMachine.Proofs.Program.Placing
import TapeMachine.Proofs.Program.Printing
import TapeMachine.Proofs.Program.Reading
import TapeMachine.Proofs.Program.Refusals
import TapeMachine.Proofs.Program.Renumbering
import TapeMachine.Proofs.Program.Returns
import TapeMachine.Proofs.Program.Rows
import TapeMachine.Proofs.Program.Rules
import TapeMachine.Proofs.Program.Scripts
import TapeMachine.Proofs.Program.Shorthand
import TapeMachine.Proofs.Program.Visits
import TapeMachine.Proofs.Report.Accepted
import TapeMachine.Proofs.Report.Cells
import TapeMachine.Proofs.Report.Drawing
import TapeMachine.Proofs.Report.Findings
import TapeMachine.Proofs.Report.Flowchart
import TapeMachine.Proofs.Report.Walk
import TapeMachine.Proofs.Run.Accounts
import TapeMachine.Proofs.Run.Agreement
import TapeMachine.Proofs.Run.CutShort
import TapeMachine.Proofs.Run.Derivation
import TapeMachine.Proofs.Run.Ending
import TapeMachine.Proofs.Run.Observers
import TapeMachine.Proofs.Run.Points
import TapeMachine.Proofs.Run.Textbook
import TapeMachine.Proofs.Run.Workers
import TapeMachine.Proofs.Service.Announcements
import TapeMachine.Proofs.Service.Delivery
import TapeMachine.Proofs.Service.Stored
import TapeMachine.Proofs.Service.Tables
import TapeMachine.Proofs.Service.Updates
import TapeMachine.Proofs.Store.Folder
import TapeMachine.Proofs.Store.Keeper
import TapeMachine.Proofs.Store.Lockers
import TapeMachine.Proofs.Store.Locking
import TapeMachine.Proofs.Store.Memory
import TapeMachine.Proofs.Store.SameMap
import TapeMachine.Proofs.Store.Server
import TapeMachine.Proofs.Table.Bytes
import TapeMachine.Proofs.Table.Differences
import TapeMachine.Proofs.Table.Json
import TapeMachine.Proofs.Table.Patching
import TapeMachine.Proofs.Table.Reachable
import TapeMachine.Proofs.Table.Representation
import TapeMachine.Proofs.Tape.Contents
import TapeMachine.Proofs.Tape.Order
import TapeMachine.Proofs.Tape.Renderings
import TapeMachine.Proofs.Text.Bytes
import TapeMachine.Proofs.Text.Cutting
import TapeMachine.Proofs.Text.Json
import TapeMachine.Report.Diagram
import TapeMachine.Report.Lint
import TapeMachine.Report.Outline
import TapeMachine.Report.Styled
import TapeMachine.Run
import TapeMachine.Service
import TapeMachine.Service.Answer
import TapeMachine.Service.Route
import TapeMachine.Store
import TapeMachine.Store.Lock
import TapeMachine.Store.Open
import TapeMachine.Store.Redis
import TapeMachine.Streams
import TapeMachine.Table
import TapeMachine.Table.Canonical
import TapeMachine.Table.Diff
import TapeMachine.Table.Json
import TapeMachine.Table.Script
import TapeMachine.Tape
import TapeMachine.Text.Binary
import TapeMachine.Text.Blank
import TapeMachine.Text.Bytes
import TapeMachine.Text.Duration
import TapeMachine.Text.Integer
import TapeMachine.Text.Json
import TapeMachine.Text.Percent
import TapeMachine.Text.Printable
import TapeMachine.Text.Quoted
import TapeMachine.Text.UpperCase
import TapeMachine.Tools
import TapeMachine.Transition
import TapeMachine.Version
