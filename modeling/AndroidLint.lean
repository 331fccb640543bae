import AndroidLint.Analysis.Catalog
import AndroidLint.Analysis.Dispatch
import AndroidLint.Analysis.Parse
import AndroidLint.Analysis.Suppression
import AndroidLint.Code.Enclosing
import AndroidLint.Code.Java
import AndroidLint.Code.Kotlin
import AndroidLint.Code.Origin
import AndroidLint.Code.Reader
import AndroidLint.Code.SourceFile
import AndroidLint.CommandLine.Answer
import AndroidLint.CommandLine.Arguments
import AndroidLint.CommandLine.Switch
import AndroidLint.CommandLine.Word
import AndroidLint.Configuration.Basic
import AndroidLint.Configuration.Datum
import AndroidLint.Configuration.Escape
import AndroidLint.Configuration.Reader
import AndroidLint.Configuration.Section
import AndroidLint.Configuration.Setting
import AndroidLint.Configuration.Toml.Quoted
import AndroidLint.Configuration.Toml.Reader
import AndroidLint.Configuration.Toml.Word
import AndroidLint.Configuration.Yaml.Cursor
import AndroidLint.Configuration.Yaml.Reader
import AndroidLint.Configuration.Yaml.Scalar
import AndroidLint.FilePath
import AndroidLint.Finding
import AndroidLint.Json.Reader
import AndroidLint.Json.Value
import AndroidLint.Location
import AndroidLint.Main
import AndroidLint.Markup.Document
import AndroidLint.Markup.Fault
import AndroidLint.Markup.Lexeme
import AndroidLint.Markup.Reader
import AndroidLint.Markup.Reference
import AndroidLint.Markup.Tag
import AndroidLint.Project.Discovery
import AndroidLint.Project.Glob
import AndroidLint.Project.IgnoreRules
import AndroidLint.Project.Lint
import AndroidLint.Project.MinSdk
import AndroidLint.Project.Storage
import AndroidLint.Report.Exchange
import AndroidLint.Report.Ink
import AndroidLint.Report.Listing
import AndroidLint.Report.Tally
import AndroidLint.Resource
import AndroidLint.Rule.Basic
import AndroidLint.Rule.Boundary
import AndroidLint.Rule.Calls
import AndroidLint.Rule.Conventions
import AndroidLint.Rule.Resources
import AndroidLint.Symbol.Index
import AndroidLint.Symbol.Naming
import AndroidLint.Symbol.Platform
import AndroidLint.Symbol.Resolver
import AndroidLint.Symbol.Type
import AndroidLint.Symbol.Walk
import AndroidLint.Syntax.Grammar
import AndroidLint.Syntax.JavaGrammar
import AndroidLint.Syntax.KotlinGrammar
import AndroidLint.Syntax.Token
import AndroidLint.Syntax.Tree
import AndroidLint.Text
import AndroidLint.Text.Capital
import AndroidLint.Text.Digit
import AndroidLint.Proofs.Symbol.Agreement
import AndroidLint.Proofs.Symbol.Build
import AndroidLint.Proofs.Analysis.Reference
import AndroidLint.Proofs.Symbol.FileOrder
import AndroidLint.Proofs.Analysis.Selection
import AndroidLint.Proofs.Report.Writable
import AndroidLint.Proofs.Markup.Nesting
import AndroidLint.Proofs.Markup.Place
import AndroidLint.Proofs.Analysis.StrayLambdas
import AndroidLint.Proofs.Code.Declarations
import AndroidLint.Proofs.Analysis.Silence
import AndroidLint.Proofs.Analysis.Leniency
import AndroidLint.Proofs.CommandLine.Precedence
import AndroidLint.Proofs.Symbol.Members
import AndroidLint.Proofs.Symbol.References
import AndroidLint.Proofs.Symbol.Nearest
import AndroidLint.Proofs.Symbol.Overriding
import AndroidLint.Proofs.Symbol.TopLevel
import AndroidLint.Proofs.Symbol.Overloads
import AndroidLint.Proofs.Rule.Attributes
import AndroidLint.Proofs.Rule.Lambdas
import AndroidLint.Proofs.Rule.Calls
import AndroidLint.Proofs.Rule.Unresolved
import AndroidLint.Proofs.Code.Naming
import AndroidLint.Proofs.Code.Listing
import AndroidLint.Proofs.Code.InnerCalls
import AndroidLint.Proofs.Code.Modifiers
import AndroidLint.Proofs.Rule.Restriction
import AndroidLint.Proofs.Rule.Periods
import AndroidLint.Proofs.Rule.Suggestion
import AndroidLint.Proofs.Json.Lookup
import AndroidLint.Proofs.Analysis.Origin
import AndroidLint.Proofs.Project.Discovery
import AndroidLint.Proofs.Project.Isolation
import AndroidLint.Proofs.Project.Walkers
import AndroidLint.Proofs.Report.Consistency
import AndroidLint.Proofs.Report.Lossless
import AndroidLint.Proofs.Report.Order
import AndroidLint.Proofs.Report.Lines
import AndroidLint.Proofs.Analysis.WebViews
import AndroidLint.Proofs.Text.Gaps
import AndroidLint.Proofs.Syntax.Closing
import AndroidLint.Proofs.Code.CallNames
import AndroidLint.Proofs.Analysis.Renaming
import AndroidLint.Proofs.Text.Offsets
import AndroidLint.Proofs.Code.Quotes
import AndroidLint.Proofs.Project.Comment
