import StackUnits.Code.DecodeProblem
import StackUnits.Code.Instruction
import StackUnits.Code.Operand
import StackUnits.Code.Unit
import StackUnits.Code.UnitFile
import StackUnits.Code.Wire
import StackUnits.Command.Arguments
import StackUnits.Command.Reach
import StackUnits.Command.Run
import StackUnits.Compile.Conditional
import StackUnits.Compile.Context
import StackUnits.Compile.Expr
import StackUnits.Compile.Program
import StackUnits.Compile.Stmt
import StackUnits.Compile.Symbols
import StackUnits.Compile.Unit
import StackUnits.Config
import StackUnits.Config.Json
import StackUnits.Decimal.Binary
import StackUnits.Decimal.Layout
import StackUnits.Decimal.Numeral
import StackUnits.Decimal.Shortest
import StackUnits.Error
import StackUnits.Files.Path
import StackUnits.Files.Problem
import StackUnits.Files.Store
import StackUnits.Files.Tree
import StackUnits.Journal
import StackUnits.Json.Lexeme
import StackUnits.Json.Problem
import StackUnits.Json.Quoted
import StackUnits.Json.Record
import StackUnits.Json.Skip
import StackUnits.Main
import StackUnits.Pile
import StackUnits.Program.Basic
import StackUnits.Program.Literal
import StackUnits.Program.Reading
import StackUnits.Proofs.Acceptance
import StackUnits.Proofs.Actions
import StackUnits.Proofs.Assignment
import StackUnits.Proofs.Bodies
import StackUnits.Proofs.Cleanup
import StackUnits.Proofs.Code
import StackUnits.Proofs.Commands
import StackUnits.Proofs.Compiled
import StackUnits.Proofs.Complaints
import StackUnits.Proofs.Confinement
import StackUnits.Proofs.Continuation
import StackUnits.Proofs.Delivery
import StackUnits.Proofs.Evaluation
import StackUnits.Proofs.Execution
import StackUnits.Proofs.Exploration
import StackUnits.Proofs.Exposure
import StackUnits.Proofs.Extension
import StackUnits.Proofs.Failures
import StackUnits.Proofs.Forms
import StackUnits.Proofs.Frames
import StackUnits.Proofs.Isolation
import StackUnits.Proofs.Jumps
import StackUnits.Proofs.LabelCheck
import StackUnits.Proofs.Labels
import StackUnits.Proofs.Layout
import StackUnits.Proofs.Locals
import StackUnits.Proofs.Lookahead
import StackUnits.Proofs.Machine
import StackUnits.Proofs.Names
import StackUnits.Proofs.Narrowing
import StackUnits.Proofs.Nesting
import StackUnits.Proofs.Numerals
import StackUnits.Proofs.PathLists
import StackUnits.Proofs.Paths
import StackUnits.Proofs.Persistence
import StackUnits.Proofs.Places
import StackUnits.Proofs.Precedence
import StackUnits.Proofs.Preservation
import StackUnits.Proofs.ReadBack
import StackUnits.Proofs.Refusal
import StackUnits.Proofs.Relocation
import StackUnits.Proofs.Renaming
import StackUnits.Proofs.Resolvers
import StackUnits.Proofs.Restoration
import StackUnits.Proofs.Reuse
import StackUnits.Proofs.Review
import StackUnits.Proofs.Roster
import StackUnits.Proofs.RoundTrip
import StackUnits.Proofs.Safety
import StackUnits.Proofs.Scopes
import StackUnits.Proofs.Sessions
import StackUnits.Proofs.Shadows
import StackUnits.Proofs.Spawning
import StackUnits.Proofs.Spelling
import StackUnits.Proofs.StackSizes
import StackUnits.Proofs.Tables
import StackUnits.Proofs.Tags
import StackUnits.Proofs.TreeText
import StackUnits.Proofs.Truncation
import StackUnits.Proofs.TwoRuns
import StackUnits.Proofs.Typing
import StackUnits.Proofs.Units
import StackUnits.Proofs.Verdicts
import StackUnits.Proofs.Writing
import StackUnits.Task.Resolver
import StackUnits.Task.SearchPath
import StackUnits.Text.Blank
import StackUnits.Text.Hidden
import StackUnits.Text.Pieces
import StackUnits.Text.Quoted
import StackUnits.Text.Utf8
import StackUnits.Tree.Basic
import StackUnits.Tree.Build
import StackUnits.Tree.Kind
import StackUnits.Tree.Printer
import StackUnits.Tree.Reader
