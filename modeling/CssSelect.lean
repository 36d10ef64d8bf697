import CssSelect.Selector.Parser
import CssSelect.Selector.Printer
import CssSelect.Selector.TreeForm
import CssSelect.Json.Printer
import CssSelect.Json.Reader
import CssSelect.Warning
import CssSelect.Trace
import CssSelect.Document.Printer
import CssSelect.Document.View
import CssSelect.Document.Loader
import CssSelect.Table
import CssSelect.Main
import CssSelect.Proofs.Matching.Column
import CssSelect.Proofs.Document.Order
import CssSelect.Proofs.Query.Search
import CssSelect.Proofs.Selector.Reparse
import CssSelect.Proofs.Document.Loaded
import CssSelect.Proofs.Query.Agreement
import CssSelect.Proofs.Matching.Alike
import CssSelect.Proofs.Document.Texts
import CssSelect.Proofs.Query.Texts
import CssSelect.Proofs.Query.Union
import CssSelect.Proofs.Document.Append
import CssSelect.Proofs.Query.Append
import CssSelect.Proofs.Document.Attributes
import CssSelect.Proofs.Document.Numbering
import CssSelect.Proofs.Query.Numbers
import CssSelect.Proofs.Document.Coherence
import CssSelect.Proofs.Document.Move
import CssSelect.Proofs.Warning
import CssSelect.Proofs.Query.Scope
import CssSelect.Proofs.Selector.Completion
import CssSelect.Proofs.Matching.Walks
import CssSelect.Proofs.Traversal.Subtree
import CssSelect.Proofs.CommandLine.Runs
import CssSelect.Proofs.Selector.Composition
import CssSelect.Proofs.Selector.LocalErrors
import CssSelect.Proofs.Document.Paths
import CssSelect.Proofs.Selector.Announced
import CssSelect.Proofs.Reports
import CssSelect.Proofs.Document.LinkWalks
import CssSelect.Proofs.Query.Closest
import CssSelect.Proofs.Matching.Pseudo
import CssSelect.Proofs.Query.Loosening
import CssSelect.Proofs.Matching.LetterCase
import CssSelect.Proofs.Matching.Shorthand
import CssSelect.Proofs.Document.BlankTags
import CssSelect.Proofs.Document.Printed
import CssSelect.Proofs.Matching.Stages
import CssSelect.Proofs.CommandLine.Lines
import CssSelect.Proofs.CommandLine.AttributeOrder
import CssSelect.Proofs.Selector.Spelling
