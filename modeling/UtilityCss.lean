import UtilityCss.Breakpoint.Override
import UtilityCss.Breakpoint.Schema
import UtilityCss.Breakpoint.Table
import UtilityCss.Breakpoint.Value
import UtilityCss.Build.Builder
import UtilityCss.Build.Delivery
import UtilityCss.Build.Failure
import UtilityCss.Build.Job
import UtilityCss.Build.Watch
import UtilityCss.Cli.Arguments
import UtilityCss.Cli.Clock
import UtilityCss.Cli.Reach
import UtilityCss.Cli.Run
import UtilityCss.Compiler
import UtilityCss.Compiler.Configuration
import UtilityCss.Config.Basic
import UtilityCss.Config.Load
import UtilityCss.Config.Schema
import UtilityCss.Diagnostic
import UtilityCss.File.Error
import UtilityCss.File.Glob
import UtilityCss.File.Path
import UtilityCss.File.Pattern
import UtilityCss.File.Tree
import UtilityCss.Json.Error
import UtilityCss.Json.Number
import UtilityCss.Json.Printer
import UtilityCss.Json.Reader
import UtilityCss.Json.Scanner
import UtilityCss.Json.Schema
import UtilityCss.Json.Value
import UtilityCss.Main
import UtilityCss.Markup.Candidate
import UtilityCss.Markup.ClassAttribute
import UtilityCss.Markup.Comment
import UtilityCss.Markup.Head
import UtilityCss.Math.Spacing
import UtilityCss.Number.Binary64
import UtilityCss.Number.Shortest
import UtilityCss.Number.Width
import UtilityCss.OrderedMap
import UtilityCss.Proofs.Build.Delivery
import UtilityCss.Proofs.Build.Lockstep
import UtilityCss.Proofs.Expansion.Cycle
import UtilityCss.Proofs.Expansion.Machine
import UtilityCss.Proofs.Expansion.Mode
import UtilityCss.Proofs.Expansion.Outcome
import UtilityCss.Proofs.Expansion.Request
import UtilityCss.Proofs.Markup.Candidate
import UtilityCss.Proofs.Math.Calls
import UtilityCss.Proofs.Math.Words
import UtilityCss.Proofs.OrderedMap
import UtilityCss.Proofs.Rule.Declarations
import UtilityCss.Proofs.Sheet.Occurrence
import UtilityCss.Proofs.Sheet.Warning
import UtilityCss.Rule.Generator
import UtilityCss.Rule.Table
import UtilityCss.Selector
import UtilityCss.Sheet
import UtilityCss.Text.Basic
import UtilityCss.Text.Blank
import UtilityCss.Text.Case
import UtilityCss.Text.Digit
import UtilityCss.Text.Terminal
import UtilityCss.Text.Visible
import UtilityCss.Text.Word
import UtilityCss.Token
import UtilityCss.Utility.Basic
import UtilityCss.Utility.Registry
import UtilityCss.Utility.Schema
import UtilityCss.Value.Color
import UtilityCss.Value.Domain
import UtilityCss.Value.Length
import UtilityCss.Value.Number
import UtilityCss.Yaml.Cursor
import UtilityCss.Yaml.Node
import UtilityCss.Yaml.Scalar
import UtilityCss.Yaml.Tag
import UtilityCss.Yaml.Token
import UtilityCss.Yaml.Value
import UtilityCss.Proofs.Sheet.Occurrence
import UtilityCss.Proofs.Markup.Candidate
import UtilityCss.Proofs.File.Alike
import UtilityCss.Proofs.File.Place
import UtilityCss.Proofs.Markup.Head
import UtilityCss.Proofs.Build.History
import UtilityCss.Proofs.File.Footprint
import UtilityCss.Proofs.Build.Footprint
import UtilityCss.Proofs.Build.Watch
import UtilityCss.Proofs.File.Normal
import UtilityCss.Proofs.Build.Link
import UtilityCss.Proofs.Value.Tame
import UtilityCss.Proofs.Rule.Written
import UtilityCss.Proofs.Rule.Confined
import UtilityCss.Proofs.Selector.Symbol
import UtilityCss.Proofs.Selector.Identifier
import UtilityCss.Proofs.Text.Search
import UtilityCss.Proofs.Markup.Again
import UtilityCss.Proofs.File.Again
import UtilityCss.Proofs.Build.Again
import UtilityCss.Proofs.Markup.Attribute
import UtilityCss.Proofs.Build.DryRun
import UtilityCss.Proofs.Config.RoundTrip
import UtilityCss.Proofs.Expansion.Registration
import UtilityCss.Proofs.Expansion.Inline
import UtilityCss.Proofs.File.Literal
import UtilityCss.Proofs.File.Respelled
import UtilityCss.Proofs.Build.Listing
import UtilityCss.Proofs.Json.Parts
import UtilityCss.Proofs.Json.Passed
import UtilityCss.Proofs.Json.Decoded
import UtilityCss.Proofs.Json.Record
import UtilityCss.Proofs.Json.Integer
import UtilityCss.Proofs.Config.Decoded
import UtilityCss.Proofs.Breakpoint.Value
import UtilityCss.Proofs.Breakpoint.Report
import UtilityCss.Proofs.Breakpoint.Tolerance
import UtilityCss.Proofs.Expansion.Loosening
import UtilityCss.Proofs.Token.Spelling
import UtilityCss.Proofs.Rule.Shorthand
import UtilityCss.Proofs.Math.Layout
import UtilityCss.Proofs.Math.Balance
import UtilityCss.Proofs.Math.Site
import UtilityCss.Proofs.Math.OneCall
import UtilityCss.Proofs.Value.Numeral
import UtilityCss.Proofs.Rule.Leading
import UtilityCss.Proofs.Breakpoint.Number
import UtilityCss.Proofs.Breakpoint.Merge
import UtilityCss.Proofs.Utility.History
import UtilityCss.Proofs.Utility.Variants
import UtilityCss.Proofs.Token.Modifier
import UtilityCss.Proofs.Expansion.Gate
import UtilityCss.Proofs.Expansion.Importance
import UtilityCss.Proofs.Markup.Comment
import UtilityCss.Proofs.Rule.Border
import UtilityCss.Proofs.Rule.Text
import UtilityCss.Proofs.Rule.Spacing
import UtilityCss.Proofs.Value.Alphabet
import UtilityCss.Proofs.Value.Ascii
import UtilityCss.Proofs.File.Joined
import UtilityCss.Proofs.Config.Init
