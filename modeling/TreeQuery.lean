import TreeQuery.Assoc
import TreeQuery.Bytes.Base64
import TreeQuery.Bytes.Hex
import TreeQuery.Bytes.Parsing
import TreeQuery.Component
import TreeQuery.Decimal.BinaryFraction
import TreeQuery.Decimal.Reading
import TreeQuery.Decimal.Shortest
import TreeQuery.Decimal.Writing
import TreeQuery.Evaluate
import TreeQuery.Evaluation.Binding
import TreeQuery.Evaluation.Call
import TreeQuery.Evaluation.Handler
import TreeQuery.Evaluation.Invocation
import TreeQuery.Evaluation.Loop
import TreeQuery.Evaluation.Navigation
import TreeQuery.Evaluation.Operator
import TreeQuery.Fault
import TreeQuery.Feed
import TreeQuery.Json.Basic
import TreeQuery.Json.Reader
import TreeQuery.Json.Record
import TreeQuery.Json.Skip
import TreeQuery.Library.Apply
import TreeQuery.Library.Functions
import TreeQuery.Library.Signature
import TreeQuery.Machine.Basic
import TreeQuery.Machine.Chain
import TreeQuery.Machine.Memo
import TreeQuery.Numeral
import TreeQuery.Operation
import TreeQuery.Operator
import TreeQuery.Options
import TreeQuery.Pattern
import TreeQuery.Power
import TreeQuery.Program
import TreeQuery.Settings
import TreeQuery.Step
import TreeQuery.Store
import TreeQuery.Text.Alphanumeric
import TreeQuery.Text.Blank
import TreeQuery.Text.Printable
import TreeQuery.Text.Quoted
import TreeQuery.Value.Basic
import TreeQuery.Value.Display
import TreeQuery.Value.Edit
import TreeQuery.Value.Interchange
import TreeQuery.Value.Navigation
import TreeQuery.Value.Same
import TreeQuery.Value.Selection
import TreeQuery.Proofs.Partition
import TreeQuery.Proofs.Dangling
import TreeQuery.Proofs.Matching
import TreeQuery.Proofs.Arrivals
import TreeQuery.Proofs.Wildcards
import TreeQuery.Proofs.Projections
import TreeQuery.Proofs.Leaves
import TreeQuery.Proofs.Equality
import TreeQuery.Proofs.Multisets
import TreeQuery.Proofs.Translation.Syntax
import TreeQuery.Proofs.Translation.Values
import TreeQuery.Proofs.Translation.Contents
import TreeQuery.Proofs.Translation.Naturality
import TreeQuery.Proofs.Translation.Chains
import TreeQuery.Proofs.Lockstep.Expressions
import TreeQuery.Proofs.Lockstep.Runs
import TreeQuery.Proofs.Frames.Balance
import TreeQuery.Proofs.Handlers.Invisible
import TreeQuery.Proofs.Handlers.Causes
import TreeQuery.Proofs.Memos.Unobservable
import TreeQuery.Proofs.Memos.Lifetimes
import TreeQuery.Proofs.Memos.Standing
import TreeQuery.Proofs.Memos.Timing
import TreeQuery.Proofs.Capture.Reference
import TreeQuery.Proofs.Interchange.Stored
import TreeQuery.Proofs.Interchange.Nesting
import TreeQuery.Proofs.AddressText
import TreeQuery.Proofs.Overriding
import TreeQuery.Proofs.Retrying
import TreeQuery.Proofs.Feeding
import TreeQuery.Proofs.DepthLimit
import TreeQuery.Proofs.Isolation
import TreeQuery.Proofs.Cursor.Addressed
import TreeQuery.Proofs.Loops.Appending
import TreeQuery.Proofs.Edits
import TreeQuery.Proofs.Interchange.Hexadecimal
import TreeQuery.Proofs.Dispatch
import TreeQuery.Proofs.Unboxing
import TreeQuery.Proofs.Brackets
import TreeQuery.Proofs.Rendering.Exact
import TreeQuery.Proofs.Rendering.Whole
import TreeQuery.Proofs.Rendering.Nearest
import TreeQuery.Proofs.Rendering.Decimals
import TreeQuery.Proofs.Rendering.Displayed
import TreeQuery.Proofs.WrittenPlaces
