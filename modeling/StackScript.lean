import StackScript.Ast
import StackScript.Builtin
import StackScript.Bytecode.Generation
import StackScript.Bytecode.Instruction
import StackScript.Bytecode.Program
import StackScript.CommandLine.Answer
import StackScript.CommandLine.Console
import StackScript.CommandLine.DemoHost
import StackScript.CommandLine.Request
import StackScript.Compilation
import StackScript.Decimal.Reading
import StackScript.Decimal.Shortest
import StackScript.Diagnostics
import StackScript.Fault
import StackScript.Host.Bridge
import StackScript.Host.Registry
import StackScript.Journal
import StackScript.Machine.Run
import StackScript.Machine.State
import StackScript.Machine.Step
import StackScript.Main
import StackScript.Parser.Expression
import StackScript.Parser.Role
import StackScript.Parser.Script
import StackScript.Parser.State
import StackScript.Parser.Trail
import StackScript.Proofs.Acceptance.Language
import StackScript.Proofs.Folding.Transparency
import StackScript.Proofs.Layout.Ranges
import StackScript.Proofs.Limits.Bounds
import StackScript.Proofs.Limits.Cutoff
import StackScript.Proofs.Machine.Failure
import StackScript.Proofs.Machine.Outcome
import StackScript.Proofs.Machine.Recall
import StackScript.Proofs.Passage.Outcome
import StackScript.Proofs.Passage.Progress
import StackScript.Proofs.Reference.Correctness
import StackScript.Proofs.Shape.Isolation
import StackScript.Session
import StackScript.Source.Scan
import StackScript.Source.Token
import StackScript.Table
import StackScript.Text.Alphabetic
import StackScript.Text.Backspace
import StackScript.Text.Blank
import StackScript.Text.CaseIgnorable
import StackScript.Text.CaseMap
import StackScript.Text.Cased
import StackScript.Text.Casing
import StackScript.Text.CharSet
import StackScript.Text.Cluster
import StackScript.Text.ClusterRole
import StackScript.Text.Conjunct
import StackScript.Text.GraphemeExtend
import StackScript.Text.Layout
import StackScript.Text.Numeric
import StackScript.Text.Pictographic
import StackScript.Text.Qualified
import StackScript.Text.Quoted
import StackScript.Text.SpacingMark
import StackScript.Text.Unprintable
import StackScript.Text.Uppercase
import StackScript.Value.Basic
import StackScript.Value.Display
import StackScript.Value.Element
import StackScript.Value.Enumerator
import StackScript.Value.Equality
import StackScript.Value.Heap
import StackScript.Value.Operators
import StackScript.Proofs.Source.Printing
import StackScript.Proofs.Source.Delivery
import StackScript.Proofs.Host.Domestic
import StackScript.Proofs.Layout.Literals
import StackScript.Proofs.Machine.Hostless
import StackScript.Proofs.Host.Seclusion
import StackScript.Proofs.Machine.Control
import StackScript.Proofs.Machine.Globals
import StackScript.Proofs.Layout.Initializer
import StackScript.Proofs.Session.History
import StackScript.Proofs.Session.Globals
import StackScript.Proofs.Session.Initializer
import StackScript.Proofs.Reading.Invariant
import StackScript.Proofs.Reading.Following
import StackScript.Proofs.Reading.Caret
import StackScript.Proofs.Session.Reports
import StackScript.Proofs.Value.Bisimulation
import StackScript.Proofs.Value.Outline
import StackScript.Proofs.Value.Enumeration
import StackScript.Proofs.Session.Failures
import StackScript.Proofs.Value.Progression
import StackScript.Proofs.Machine.StaticAccess
import StackScript.Proofs.Host.Construction
import StackScript.Proofs.Host.Dispatch
import StackScript.Proofs.Arithmetic.Modular
import StackScript.Proofs.Limits.Trial
