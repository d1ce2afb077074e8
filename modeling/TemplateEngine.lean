import TemplateEngine.Text.Blank
import TemplateEngine.Text.Search
import TemplateEngine.Text.Case
import TemplateEngine.Text.Distance
import TemplateEngine.Decimal.Reading
import TemplateEngine.Value
import TemplateEngine.Json.Writer
import TemplateEngine.Json.Reader
import TemplateEngine.Expr.Grammar
import TemplateEngine.Expr.Eval
import TemplateEngine.Filter.Builtin
import TemplateEngine.Markup.Script
import TemplateEngine.Markup.Segment
import TemplateEngine.Markup.Tree
import TemplateEngine.Program.Code
import TemplateEngine.Render.Machine
import TemplateEngine.Digest.Sha256
import TemplateEngine.Time.Stamp
import TemplateEngine.Files.Path
import TemplateEngine.Files.Host
import TemplateEngine.Compile.Link
import TemplateEngine.Failure
import TemplateEngine.Advice
import TemplateEngine.Settings.Basic
import TemplateEngine.Cache.Store
import TemplateEngine.Engine.Render
import TemplateEngine.Toml.Table
import TemplateEngine.Toml.Scalar
import TemplateEngine.Toml.Text
import TemplateEngine.Toml.Reader
import TemplateEngine.Settings.Load
import TemplateEngine.CommandLine.Run
import TemplateEngine.Main
import TemplateEngine.Proofs.Compile.WellFormed
import TemplateEngine.Proofs.Compile.Cycles
import TemplateEngine.Proofs.Cache.Records
import TemplateEngine.Proofs.Compile.Apart
import TemplateEngine.Proofs.Engine.Transparency
import TemplateEngine.Proofs.Render.Meaning
import TemplateEngine.Proofs.Render.Refinement
import TemplateEngine.Proofs.Render.Strictness
import TemplateEngine.Proofs.Markup.Quotes
import TemplateEngine.Proofs.Markup.Spans
import TemplateEngine.Proofs.Markup.Spelling
import TemplateEngine.Proofs.Markup.Walk
import TemplateEngine.Proofs.Markup.Printing
import TemplateEngine.Proofs.Markup.Rebuilding
import TemplateEngine.Proofs.Markup.Balance
import TemplateEngine.Proofs.Decimal.Digits
import TemplateEngine.Proofs.Program.RoundTrip
import TemplateEngine.Proofs.Compile.Alone
import TemplateEngine.Proofs.Decimal.Exact
import TemplateEngine.Proofs.Expr.Lexing
import TemplateEngine.Proofs.Expr.Rebuilding
import TemplateEngine.Proofs.Cache.Contents
import TemplateEngine.Proofs.Cache.Interruption
import TemplateEngine.Proofs.Engine.Settling
import TemplateEngine.Proofs.Engine.Healing
import TemplateEngine.Proofs.Compile.Overrides
import TemplateEngine.Proofs.Compile.Merging
import TemplateEngine.Proofs.Render.Escaping
import TemplateEngine.Proofs.Compile.Echoes
import TemplateEngine.Proofs.Engine.Turns
import TemplateEngine.Proofs.Compile.Slots
import TemplateEngine.Proofs.Cache.Clearing
import TemplateEngine.Proofs.Engine.Failing
import TemplateEngine.Proofs.Cache.Keys
import TemplateEngine.Proofs.Compile.Bodies
import TemplateEngine.Proofs.Render.Chains
import TemplateEngine.Proofs.Compile.Lineage
import TemplateEngine.Proofs.Files.Canonical
import TemplateEngine.Proofs.Compile.Inline
import TemplateEngine.Proofs.Cache.Room
import TemplateEngine.Proofs.Engine.Inline
import TemplateEngine.Proofs.Engine.Counting
import TemplateEngine.Proofs.Compile.Bookkeeping
import TemplateEngine.Proofs.Expr.Paths
import TemplateEngine.Proofs.Render.Rounds
import TemplateEngine.Proofs.Markup.Stripping
import TemplateEngine.Proofs.Markup.Seams
import TemplateEngine.Proofs.Compile.Lines
import TemplateEngine.Proofs.Filter.Tags
import TemplateEngine.Proofs.Decimal.Integers
import TemplateEngine.Proofs.Expr.Comparing
import TemplateEngine.Proofs.Expr.Integers
import TemplateEngine.Proofs.Text.Distance
import TemplateEngine.Proofs.Text.Suggestions
import TemplateEngine.Proofs.Render.Suggestions
import TemplateEngine.Proofs.Render.Headers
import TemplateEngine.Proofs.Filter.Entities
