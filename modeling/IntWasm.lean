import IntWasm.Allocator
import IntWasm.Body.Check
import IntWasm.Body.Scope
import IntWasm.Buffer
import IntWasm.Bytes.Cursor
import IntWasm.Bytes.Sink
import IntWasm.Command.Basic
import IntWasm.Command.Dump
import IntWasm.Command.Line
import IntWasm.Command.Run
import IntWasm.Command.Validate
import IntWasm.Config.Basic
import IntWasm.Config.Parse
import IntWasm.ConstExpr
import IntWasm.Counters
import IntWasm.DecodeError
import IntWasm.Engine.Instantiate
import IntWasm.Engine.Invoke
import IntWasm.Engine.Link
import IntWasm.Engine.Machine
import IntWasm.Engine.Run
import IntWasm.Engine.Step
import IntWasm.Engine.Store
import IntWasm.Failure
import IntWasm.Host.Bindings
import IntWasm.Host.Method
import IntWasm.Host.Service
import IntWasm.Instruction.Assemble
import IntWasm.Instruction.Basic
import IntWasm.Instruction.Decode
import IntWasm.Instruction.Encode
import IntWasm.Leb128
import IntWasm.Leb128.Append
import IntWasm.Main
import IntWasm.Memory
import IntWasm.Module.Basic
import IntWasm.Module.Names
import IntWasm.Module.Read
import IntWasm.Module.Validate
import IntWasm.Module.Write
import IntWasm.Numeric
import IntWasm.Opcode
import IntWasm.Proofs.Bytes.Encoding
import IntWasm.Proofs.Bytes.Filling
import IntWasm.Proofs.Bytes.Reading
import IntWasm.Proofs.Bytes.Taking
import IntWasm.Proofs.Bytes.Writing
import IntWasm.Proofs.Config
import IntWasm.Proofs.Engine.Accesses
import IntWasm.Proofs.Engine.Accounts
import IntWasm.Proofs.Engine.Actions
import IntWasm.Proofs.Engine.Alike
import IntWasm.Proofs.Engine.Arithmetic
import IntWasm.Proofs.Engine.Atomicity
import IntWasm.Proofs.Engine.Blame
import IntWasm.Proofs.Engine.Changes
import IntWasm.Proofs.Engine.Dispatch
import IntWasm.Proofs.Engine.Extension
import IntWasm.Proofs.Engine.Failures
import IntWasm.Proofs.Engine.Globals
import IntWasm.Proofs.Engine.Growing
import IntWasm.Proofs.Engine.Histories
import IntWasm.Proofs.Engine.IndexSpaces
import IntWasm.Proofs.Engine.Instances
import IntWasm.Proofs.Engine.Leeway
import IntWasm.Proofs.Engine.Limits
import IntWasm.Proofs.Engine.Linking
import IntWasm.Proofs.Engine.MemoryGuards
import IntWasm.Proofs.Engine.MemoryLimits
import IntWasm.Proofs.Engine.MemorySharing
import IntWasm.Proofs.Engine.Moments
import IntWasm.Proofs.Engine.Owners
import IntWasm.Proofs.Engine.Safety
import IntWasm.Proofs.Engine.Segments
import IntWasm.Proofs.Engine.Settings
import IntWasm.Proofs.Engine.Staying
import IntWasm.Proofs.Engine.Tracing
import IntWasm.Proofs.Engine.Transparency
import IntWasm.Proofs.Engine.Twins
import IntWasm.Proofs.Engine.TypedRuns
import IntWasm.Proofs.Engine.ZeroExtension
import IntWasm.Proofs.Host.Bindings
import IntWasm.Proofs.Instruction.Agreement
import IntWasm.Proofs.Instruction.Legible
import IntWasm.Proofs.Leb128.Appending
import IntWasm.Proofs.Leb128.Canonical
import IntWasm.Proofs.Leb128.Runs
import IntWasm.Proofs.Leb128.Shortest
import IntWasm.Proofs.Leb128.Strict
import IntWasm.Proofs.Memory.Bytes
import IntWasm.Proofs.Memory.Contract
import IntWasm.Proofs.Memory.Pages
import IntWasm.Proofs.Module.Checked
import IntWasm.Proofs.Module.Constants
import IntWasm.Proofs.Module.Contents
import IntWasm.Proofs.Module.Entries
import IntWasm.Proofs.Module.Evaluation
import IntWasm.Proofs.Module.Format
import IntWasm.Proofs.Module.Functions
import IntWasm.Proofs.Module.IndexSpaces
import IntWasm.Proofs.Module.Layout
import IntWasm.Proofs.Module.Names
import IntWasm.Proofs.Module.Places
import IntWasm.Proofs.Module.Positions
import IntWasm.Proofs.Module.Reading
import IntWasm.Proofs.Module.RoundTrip
import IntWasm.Proofs.Module.Sections
import IntWasm.Proofs.Module.Truncation
import IntWasm.Proofs.Opcode
import IntWasm.Proofs.Outcome
import IntWasm.Proofs.Report.Sections
import IntWasm.Proofs.Structured.Acceptance
import IntWasm.Proofs.Structured.Blocks
import IntWasm.Proofs.Structured.Bounds
import IntWasm.Proofs.Structured.Brackets
import IntWasm.Proofs.Structured.Branches
import IntWasm.Proofs.Structured.Canonical
import IntWasm.Proofs.Structured.Checking
import IntWasm.Proofs.Structured.Correspondence
import IntWasm.Proofs.Structured.Effects
import IntWasm.Proofs.Structured.Growth
import IntWasm.Proofs.Structured.Heights
import IntWasm.Proofs.Structured.Instructions
import IntWasm.Proofs.Structured.Layout
import IntWasm.Proofs.Structured.Machine
import IntWasm.Proofs.Structured.Nesting
import IntWasm.Proofs.Structured.Openings
import IntWasm.Proofs.Structured.Operands
import IntWasm.Proofs.Structured.Preservation
import IntWasm.Proofs.Structured.Reading
import IntWasm.Proofs.Structured.Refinement
import IntWasm.Proofs.Structured.Refusals
import IntWasm.Proofs.Structured.Rewriting
import IntWasm.Proofs.Structured.Semantics
import IntWasm.Proofs.Structured.Simulation
import IntWasm.Proofs.Structured.StackBound
import IntWasm.Proofs.Structured.Syntax
import IntWasm.Proofs.Structured.Typing
import IntWasm.Proofs.Structured.Widths
import IntWasm.Proofs.Trace.Legibility
import IntWasm.Proofs.Trace.Nesting
import IntWasm.Proofs.Trace.Reading
import IntWasm.Proofs.Trace.Rereading
import IntWasm.Proofs.Trace.RoundTrip
import IntWasm.Proofs.Trace.Telling
import IntWasm.Proofs.Trace.Watching
import IntWasm.Proofs.Trace.Writing
import IntWasm.Report.FunctionNames
import IntWasm.Report.Statistics
import IntWasm.Report.Summary
import IntWasm.Session.Stand
import IntWasm.Session.Step
import IntWasm.Table
import IntWasm.Text.Base64
import IntWasm.Text.Csv
import IntWasm.Text.Decimal
import IntWasm.Text.IntLiteral
import IntWasm.Text.Number
import IntWasm.Text.Printable
import IntWasm.Text.Quoted
import IntWasm.Text.Timestamp
import IntWasm.Text.Utf8
import IntWasm.Thread
import IntWasm.Trace.Entry
import IntWasm.Trace.Print
import IntWasm.Trap
import IntWasm.TrapError
import IntWasm.Types
import IntWasm.Value
import IntWasm.Violation
import IntWasm.Yaml.Character
import IntWasm.Yaml.Lexer
import IntWasm.Yaml.Meaning
import IntWasm.Yaml.Node
import IntWasm.Yaml.Scalar
import IntWasm.Yaml.Source
import IntWasm.Yaml.Token
