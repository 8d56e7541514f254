import EmbeddedExpr.Attribute.Name
import EmbeddedExpr.Attribute.Registry
import EmbeddedExpr.Command.Arguments
import EmbeddedExpr.Command.Report
import EmbeddedExpr.Command.Run
import EmbeddedExpr.Data.Basic
import EmbeddedExpr.Data.Calendar
import EmbeddedExpr.Data.Print
import EmbeddedExpr.Delimiter.Basic
import EmbeddedExpr.Delimiter.Syntax
import EmbeddedExpr.Ignore.Glob
import EmbeddedExpr.Ignore.Match
import EmbeddedExpr.Ignore.Pattern
import EmbeddedExpr.Injection
import EmbeddedExpr.Json.Reader
import EmbeddedExpr.Json.Writer
import EmbeddedExpr.Main
import EmbeddedExpr.Manifest.Buffers
import EmbeddedExpr.Manifest.Cache
import EmbeddedExpr.Manifest.Reader
import EmbeddedExpr.Manifest.Roots
import EmbeddedExpr.Manifest.Store
import EmbeddedExpr.Markup.Host
import EmbeddedExpr.Markup.Lexer
import EmbeddedExpr.Markup.Lookup
import EmbeddedExpr.Markup.Token
import EmbeddedExpr.Number.Binary64
import EmbeddedExpr.Path
import EmbeddedExpr.Project.Basic
import EmbeddedExpr.Project.Content
import EmbeddedExpr.Project.Expressions
import EmbeddedExpr.Project.Framework
import EmbeddedExpr.Region
import EmbeddedExpr.Scan
import EmbeddedExpr.Settings.Basic
import EmbeddedExpr.Settings.File
import EmbeddedExpr.Settings.Reader
import EmbeddedExpr.Text.Base64
import EmbeddedExpr.Text.Blank
import EmbeddedExpr.Text.Case
import EmbeddedExpr.Text.CaseMatch
import EmbeddedExpr.Text.Digits
import EmbeddedExpr.Text.Lines
import EmbeddedExpr.Text.Printable
import EmbeddedExpr.Text.Quoted
import EmbeddedExpr.Text.Ranges
import EmbeddedExpr.Text.Search
import EmbeddedExpr.Text.Utf8
import EmbeddedExpr.Text.Word
import EmbeddedExpr.Tree.Access
import EmbeddedExpr.Tree.Basic
import EmbeddedExpr.Tree.Resolve
import EmbeddedExpr.Yaml.Block
import EmbeddedExpr.Yaml.Chars
import EmbeddedExpr.Yaml.Cursor
import EmbeddedExpr.Yaml.Document
import EmbeddedExpr.Yaml.Layout
import EmbeddedExpr.Yaml.Merge
import EmbeddedExpr.Yaml.Node
import EmbeddedExpr.Yaml.Plain
import EmbeddedExpr.Yaml.Progress
import EmbeddedExpr.Yaml.Property
import EmbeddedExpr.Yaml.Quoted
import EmbeddedExpr.Yaml.Scalar
import EmbeddedExpr.Yaml.Schema
import EmbeddedExpr.Yaml.Token
import EmbeddedExpr.Yaml.Value
import EmbeddedExpr.Proofs.Answers
import EmbeddedExpr.Proofs.Attribute.Listed
import EmbeddedExpr.Proofs.Attribute.Spelling
import EmbeddedExpr.Proofs.Command.Offsets
import EmbeddedExpr.Proofs.Command.Refusal
import EmbeddedExpr.Proofs.Data.Print
import EmbeddedExpr.Proofs.Ignore.Directory
import EmbeddedExpr.Proofs.Ignore.Layers
import EmbeddedExpr.Proofs.Ignore.Trimming
import EmbeddedExpr.Proofs.Injection.Comments
import EmbeddedExpr.Proofs.Injection.Cutting
import EmbeddedExpr.Proofs.Injection.Markers
import EmbeddedExpr.Proofs.Injection.Placement
import EmbeddedExpr.Proofs.Injection.Quotes
import EmbeddedExpr.Proofs.Injection.Values
import EmbeddedExpr.Proofs.Manifest.CustomRoots
import EmbeddedExpr.Proofs.Manifest.Documents
import EmbeddedExpr.Proofs.Manifest.History
import EmbeddedExpr.Proofs.Manifest.LastRequest
import EmbeddedExpr.Proofs.Manifest.Nearest
import EmbeddedExpr.Proofs.Manifest.Resolver
import EmbeddedExpr.Proofs.Manifest.Run
import EmbeddedExpr.Proofs.Manifest.Transparency
import EmbeddedExpr.Proofs.Markup.Comments
import EmbeddedExpr.Proofs.Markup.Coverage
import EmbeddedExpr.Proofs.Markup.Cutting
import EmbeddedExpr.Proofs.Markup.Extent
import EmbeddedExpr.Proofs.Markup.Grammar
import EmbeddedExpr.Proofs.Markup.Host
import EmbeddedExpr.Proofs.Markup.Lookup
import EmbeddedExpr.Proofs.Markup.Partition
import EmbeddedExpr.Proofs.Markup.RawText
import EmbeddedExpr.Proofs.Markup.Readers
import EmbeddedExpr.Proofs.Markup.Sealed
import EmbeddedExpr.Proofs.Markup.Value
import EmbeddedExpr.Proofs.Project.Exclusion
import EmbeddedExpr.Proofs.Project.Ground
import EmbeddedExpr.Proofs.Project.IgnoreFile
import EmbeddedExpr.Proofs.Project.Links
import EmbeddedExpr.Proofs.Project.Membership
import EmbeddedExpr.Proofs.Project.Ownership
import EmbeddedExpr.Proofs.Project.Sources
import EmbeddedExpr.Proofs.Project.Upward
import EmbeddedExpr.Proofs.Project.Walk
import EmbeddedExpr.Proofs.Scan.Alternation
import EmbeddedExpr.Proofs.Scan.Candidates
import EmbeddedExpr.Proofs.Scan.Embedding
import EmbeddedExpr.Proofs.Scan.Growth
import EmbeddedExpr.Proofs.Scan.Inert
import EmbeddedExpr.Proofs.Scan.Marker
import EmbeddedExpr.Proofs.Scan.Occurrences
import EmbeddedExpr.Proofs.Scan.Order
import EmbeddedExpr.Proofs.Settings.Faults
import EmbeddedExpr.Proofs.Settings.Grammar
import EmbeddedExpr.Proofs.Settings.Reading
import EmbeddedExpr.Proofs.Settings.Unset
import EmbeddedExpr.Proofs.Text.Case
import EmbeddedExpr.Proofs.Text.Lines
import EmbeddedExpr.Proofs.Text.Lower
import EmbeddedExpr.Proofs.Text.Pieces
import EmbeddedExpr.Proofs.Text.Search
import EmbeddedExpr.Proofs.Tree.Named
import EmbeddedExpr.Proofs.Tree.Reached
import EmbeddedExpr.Proofs.Tree.Straight
