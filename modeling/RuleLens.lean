import RuleLens.Command.Arguments
import RuleLens.Command.Basic
import RuleLens.Command.Help
import RuleLens.Compiler.Basic
import RuleLens.Compiler.Batch
import RuleLens.Config.Basic
import RuleLens.Config.Overlay
import RuleLens.Config.Printer
import RuleLens.Config.Reader
import RuleLens.Config.Store
import RuleLens.Diagnostic.Basic
import RuleLens.Diagnostic.Line
import RuleLens.Diagnostic.Response
import RuleLens.Discovery
import RuleLens.Document
import RuleLens.Ignore.Glob.Basic
import RuleLens.Ignore.Glob.Limits
import RuleLens.Ignore.Glob.Reader
import RuleLens.Ignore.Patterns
import RuleLens.Ignore.Rules
import RuleLens.Ignore.Settings
import RuleLens.IoError
import RuleLens.Location.Basic
import RuleLens.Location.Resolve
import RuleLens.Main
import RuleLens.Module.Basic
import RuleLens.Module.Completion
import RuleLens.Module.Schema
import RuleLens.Output.Json
import RuleLens.Output.Place
import RuleLens.Path
import RuleLens.Position
import RuleLens.Proofs.Agreement
import RuleLens.Proofs.Batch
import RuleLens.Proofs.ByteOrder
import RuleLens.Proofs.Cancellation
import RuleLens.Proofs.Classify
import RuleLens.Proofs.Closure
import RuleLens.Proofs.Compiler
import RuleLens.Proofs.Completion
import RuleLens.Proofs.Config
import RuleLens.Proofs.Declaration
import RuleLens.Proofs.Decoding
import RuleLens.Proofs.Definition
import RuleLens.Proofs.Diagnostic
import RuleLens.Proofs.Discovery
import RuleLens.Proofs.Document
import RuleLens.Proofs.Edit
import RuleLens.Proofs.Ends
import RuleLens.Proofs.Failing
import RuleLens.Proofs.FirstToken
import RuleLens.Proofs.Grammar
import RuleLens.Proofs.Growth
import RuleLens.Proofs.Limit
import RuleLens.Proofs.LineEnding
import RuleLens.Proofs.Location
import RuleLens.Proofs.Marker
import RuleLens.Proofs.Occurrence
import RuleLens.Proofs.Overlay
import RuleLens.Proofs.Path
import RuleLens.Proofs.Place
import RuleLens.Proofs.Query
import RuleLens.Proofs.References
import RuleLens.Proofs.Resolve
import RuleLens.Proofs.RuleFiles
import RuleLens.Proofs.RuleName
import RuleLens.Proofs.RuleReferences
import RuleLens.Proofs.Scope
import RuleLens.Proofs.Text
import RuleLens.Proofs.Tree
import RuleLens.Proofs.Uses
import RuleLens.Proofs.Utf8
import RuleLens.Proofs.Walk
import RuleLens.Proofs.Word
import RuleLens.Proofs.Writing
import RuleLens.Query
import RuleLens.Session
import RuleLens.Symbol.Basic
import RuleLens.Symbol.Definition
import RuleLens.Symbol.References
import RuleLens.Symbol.Scope
import RuleLens.Text.Automaton
import RuleLens.Text.Blank
import RuleLens.Text.Decimal
import RuleLens.Text.Digit
import RuleLens.Text.Expression
import RuleLens.Text.Search
import RuleLens.Text.Utf8
import RuleLens.Toml.Quoted
import RuleLens.Toml.Reader
import RuleLens.Toml.Scalar
import RuleLens.Toml.Table
import RuleLens.Toml.Value
import RuleLens.World.Basic
import RuleLens.World.Tree
