import SchemaCast.Address
import SchemaCast.Casting
import SchemaCast.Check
import SchemaCast.Context
import SchemaCast.Entries
import SchemaCast.ErrorLog
import SchemaCast.External
import SchemaCast.FileTree
import SchemaCast.Format
import SchemaCast.Grammar
import SchemaCast.Json.Basic
import SchemaCast.Json.Printer
import SchemaCast.Json.Reader
import SchemaCast.Number.Binary
import SchemaCast.Number.Layout
import SchemaCast.Number.Reading
import SchemaCast.Number.Shortest
import SchemaCast.Outcome
import SchemaCast.Path
import SchemaCast.Pattern
import SchemaCast.Proofs.Acceptance
import SchemaCast.Proofs.CastCalls
import SchemaCast.Proofs.CastDescent
import SchemaCast.Proofs.CastEnds
import SchemaCast.Proofs.CastTermination
import SchemaCast.Proofs.Coverage
import SchemaCast.Proofs.Determinacy
import SchemaCast.Proofs.ExternalNames
import SchemaCast.Proofs.Fuel
import SchemaCast.Proofs.Height
import SchemaCast.Proofs.Invariant
import SchemaCast.Proofs.Lexical
import SchemaCast.Proofs.Place
import SchemaCast.Proofs.Recursion
import SchemaCast.Proofs.Run
import SchemaCast.Proofs.Satisfaction
import SchemaCast.Proofs.Settling
import SchemaCast.Proofs.Simulation.Basic
import SchemaCast.Proofs.Simulation.Casting
import SchemaCast.Proofs.Simulation.Validation
import SchemaCast.Proofs.Validity
import SchemaCast.Proofs.Validity.Array
import SchemaCast.Proofs.Validity.Combinator
import SchemaCast.Proofs.Validity.Hash
import SchemaCast.Proofs.Verdict
import SchemaCast.Regex.Basic
import SchemaCast.Regex.CharSet
import SchemaCast.Regex.Class
import SchemaCast.Regex.Marks
import SchemaCast.Regex.Reader
import SchemaCast.Registry
import SchemaCast.Registry.Settings
import SchemaCast.Scalar
import SchemaCast.Schema.Build
import SchemaCast.Schema.Declaration
import SchemaCast.Schema.Error
import SchemaCast.Schema.Export
import SchemaCast.Schema.Node
import SchemaCast.Schema.Size
import SchemaCast.Schema.ValueKind
import SchemaCast.Text.CaseFold
import SchemaCast.Text.Category
import SchemaCast.Text.Letter
import SchemaCast.Text.Lines
import SchemaCast.Text.Quoted
import SchemaCast.Text.Ranges
import SchemaCast.Text.Script
import SchemaCast.Text.Unprintable
import SchemaCast.Text.Word
import SchemaCast.Validation
import SchemaCast.Violation
import SchemaCast.Yaml.Core
import SchemaCast.Yaml.Layout
import SchemaCast.Yaml.Reader
import SchemaCast.Yaml.Scalar
import SchemaCast.Yaml.Tag
import SchemaCast.Yaml.Text
import SchemaCast.Yaml.Tree
import SchemaCast.Proofs.Visits
import SchemaCast.Proofs.Agreement.Basic
import SchemaCast.Proofs.Agreement.Match
import SchemaCast.Proofs.Agreement.Validation
import SchemaCast.Proofs.Agreement.Casting
import SchemaCast.Proofs.KeyOrder
import SchemaCast.Proofs.Inlining
import SchemaCast.Proofs.Renewal
import SchemaCast.Proofs.Revalidation
import SchemaCast.Proofs.Termination
import SchemaCast.Proofs.Registry.Lookup
import SchemaCast.Proofs.Registry.Session
import SchemaCast.Proofs.Registry.Phases
import SchemaCast.Proofs.Registry.Coherence
import SchemaCast.Proofs.Registry.Paths
import SchemaCast.Proofs.Registry.Files
import SchemaCast.Proofs.Registry.EagerLoading
import SchemaCast.Proofs.Registry.Atomicity
import SchemaCast.Proofs.Export.Document
import SchemaCast.Proofs.Construction
import SchemaCast.Proofs.Export.References
import SchemaCast.Proofs.Declaration.Acceptance
import SchemaCast.Proofs.Discovery
import SchemaCast.Proofs.HashCast
import SchemaCast.Proofs.Recording
import SchemaCast.Proofs.Registry.LateCast
import SchemaCast.Proofs.Report
import SchemaCast.Proofs.Report.Sources
import SchemaCast.Proofs.Report.Paths
import SchemaCast.Proofs.Report.Indices
import SchemaCast.Proofs.Includes
import SchemaCast.Proofs.Text.Lines
import SchemaCast.Proofs.Text.Printed
import SchemaCast.Proofs.Report.Findings
import SchemaCast.Proofs.Report.Watched
import SchemaCast.Proofs.Report.Blocks
import SchemaCast.Proofs.Report.Combination
import SchemaCast.Proofs.Declaration.NullOptions
import SchemaCast.Proofs.Format.Integers
import SchemaCast.Proofs.NumericText
import SchemaCast.Proofs.NumericBounds
import SchemaCast.Proofs.Regex.Alphabet
import SchemaCast.Proofs.Format.Dates
import SchemaCast.Proofs.Registry.Names
import SchemaCast.Proofs.Registry.Confinement
import SchemaCast.Proofs.Registry.Aliases
import SchemaCast.Proofs.Report.Groups
import SchemaCast.Proofs.Report.Texts
import SchemaCast.Proofs.Report.InPlace
import SchemaCast.Proofs.Export.Tokens
import SchemaCast.Proofs.Registry.WalkOrder
import SchemaCast.Proofs.Report.PlainKeys
import SchemaCast.Proofs.Report.Programs
