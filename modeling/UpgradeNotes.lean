import UpgradeNotes.Builtin.AddNewParameter
import UpgradeNotes.Builtin.ChangedDefaultParameterValue
import UpgradeNotes.Builtin.ChangedParameterType
import UpgradeNotes.Builtin.MovedToExtension
import UpgradeNotes.Builtin.ObsoleteMethod
import UpgradeNotes.Builtin.OtherMethod
import UpgradeNotes.Builtin.RemovedParameter
import UpgradeNotes.Builtin.RenamedParameter
import UpgradeNotes.Builtin.RenamedTo
import UpgradeNotes.Builtin.ReplacedWith
import UpgradeNotes.Builtin.ReturnType
import UpgradeNotes.Builtin.UseInstead
import UpgradeNotes.Builtin.Visibility
import UpgradeNotes.Catalog
import UpgradeNotes.Change
import UpgradeNotes.Check
import UpgradeNotes.ClassIndex
import UpgradeNotes.ClassName
import UpgradeNotes.Collect
import UpgradeNotes.Comments
import UpgradeNotes.Config
import UpgradeNotes.Decimal.Reading
import UpgradeNotes.Decimal.Shortest
import UpgradeNotes.Docblock
import UpgradeNotes.Edit
import UpgradeNotes.Files.Basic
import UpgradeNotes.Files.Catalog
import UpgradeNotes.Files.Config
import UpgradeNotes.Files.Memory
import UpgradeNotes.Glob
import UpgradeNotes.Hierarchy
import UpgradeNotes.Inference
import UpgradeNotes.Json
import UpgradeNotes.LineDiff.Basic
import UpgradeNotes.LineDiff.Script
import UpgradeNotes.LineDiff.Unified
import UpgradeNotes.Main
import UpgradeNotes.Matching
import UpgradeNotes.Names
import UpgradeNotes.Options
import UpgradeNotes.Paint
import UpgradeNotes.Path
import UpgradeNotes.Php.Lexer
import UpgradeNotes.Php.Lexer.Scan
import UpgradeNotes.Php.Lexer.Strings
import UpgradeNotes.Php.Parse
import UpgradeNotes.Php.Parser.Basic
import UpgradeNotes.Php.Parser.Declaration
import UpgradeNotes.Php.Parser.Expr
import UpgradeNotes.Php.Parser.Stmt
import UpgradeNotes.Php.Token
import UpgradeNotes.Php.Tree
import UpgradeNotes.Php.Walk
import UpgradeNotes.Proofs.Catalog
import UpgradeNotes.Proofs.Check.Asking
import UpgradeNotes.Proofs.Check.Edits
import UpgradeNotes.Proofs.Check.Isolation
import UpgradeNotes.Proofs.Check.Kept
import UpgradeNotes.Proofs.Check.Pins
import UpgradeNotes.Proofs.Check.Places
import UpgradeNotes.Proofs.Check.Stacks
import UpgradeNotes.Proofs.Check.Targets
import UpgradeNotes.Proofs.Check.Visits
import UpgradeNotes.Proofs.ClassIndex.Comparison
import UpgradeNotes.Proofs.ClassIndex.Growth
import UpgradeNotes.Proofs.ClassIndex.ParentChain
import UpgradeNotes.Proofs.ClassIndex.Properties
import UpgradeNotes.Proofs.ClassIndex.Reachability
import UpgradeNotes.Proofs.ClassIndex.Search
import UpgradeNotes.Proofs.ClassName
import UpgradeNotes.Proofs.Collect
import UpgradeNotes.Proofs.Comments.Glued
import UpgradeNotes.Proofs.Comments.Longest
import UpgradeNotes.Proofs.Comments.Splice
import UpgradeNotes.Proofs.Config
import UpgradeNotes.Proofs.Docblock.Closed
import UpgradeNotes.Proofs.Docblock.Column
import UpgradeNotes.Proofs.Docblock.Documentation
import UpgradeNotes.Proofs.Docblock.VarTags
import UpgradeNotes.Proofs.Docblock.Writing
import UpgradeNotes.Proofs.Edit.Apart
import UpgradeNotes.Proofs.Edit.Splicing
import UpgradeNotes.Proofs.Inference
import UpgradeNotes.Proofs.Names
import UpgradeNotes.Proofs.Pending
import UpgradeNotes.Proofs.Php.Brackets
import UpgradeNotes.Proofs.Php.Calls
import UpgradeNotes.Proofs.Php.Parts
import UpgradeNotes.Proofs.Php.Simulation
import UpgradeNotes.Proofs.Php.Trace
import UpgradeNotes.Proofs.Positions
import UpgradeNotes.Proofs.ReceiverType
import UpgradeNotes.Proofs.Rerun
import UpgradeNotes.Proofs.Rule
import UpgradeNotes.Proofs.Segments
import UpgradeNotes.Proofs.Spelling
import UpgradeNotes.Proofs.Text.Lines
import UpgradeNotes.Proofs.Text.Occurrence
import UpgradeNotes.Proofs.Text.Offset
import UpgradeNotes.Proofs.Text.Position
import UpgradeNotes.Proofs.Text.Utf8
import UpgradeNotes.Proofs.Text.Words
import UpgradeNotes.Proofs.Totals
import UpgradeNotes.Proofs.WrittenType
import UpgradeNotes.ReceiverType
import UpgradeNotes.Registry
import UpgradeNotes.Report
import UpgradeNotes.Rule
import UpgradeNotes.Run
import UpgradeNotes.Site
import UpgradeNotes.Table
import UpgradeNotes.Text.Blank
import UpgradeNotes.Text.Bytes
import UpgradeNotes.Text.Case
import UpgradeNotes.Text.Lines
import UpgradeNotes.Text.Position
import UpgradeNotes.Toml.Document
import UpgradeNotes.Toml.Number
import UpgradeNotes.Toml.Text
import UpgradeNotes.Toml.Value
import UpgradeNotes.Yaml.Cursor
import UpgradeNotes.Yaml.Document
import UpgradeNotes.Yaml.Lexer
import UpgradeNotes.Yaml.Node
import UpgradeNotes.Yaml.Plain
import UpgradeNotes.Yaml.ScalarText
import UpgradeNotes.Yaml.Token
import UpgradeNotes.Yaml.Value
