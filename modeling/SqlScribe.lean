import SqlScribe.Generation.Desk
import SqlScribe.Schema.Document
import SqlScribe.Proofs.Clause.TopLevel
import SqlScribe.Proofs.Dialect.Literals
import SqlScribe.Proofs.Dialect.ReadBack
import SqlScribe.Proofs.Generation.Cleaning
import SqlScribe.Proofs.Generation.Completion
import SqlScribe.Proofs.Generation.Neutral
import SqlScribe.Proofs.Generation.Separator
import SqlScribe.Proofs.Dialect.Calls
import SqlScribe.Proofs.Dialect.Splicing
import SqlScribe.Proofs.Plan.Verbatim
import SqlScribe.Proofs.Clause.Census
import SqlScribe.Proofs.Clause.Replaced
import SqlScribe.Proofs.Dialect.SingleLimit
import SqlScribe.Proofs.Question.Grouping
import SqlScribe.Proofs.Question.Fronts
import SqlScribe.Proofs.Question.NameHints
import SqlScribe.Proofs.Question.RowCount
import SqlScribe.Proofs.Plan.Columns
import SqlScribe.Proofs.Dialect.TopCount
import SqlScribe.Proofs.Dialect.TypeNames
import SqlScribe.Proofs.Dialect.Comments
import SqlScribe.Proofs.Dialect.Changes
import SqlScribe.Proofs.Dialect.Ending
import SqlScribe.Proofs.Clause.Recognition
import SqlScribe.Proofs.Dialect.Report
import SqlScribe.Proofs.Generation.Fences
import SqlScribe.Proofs.Json.Generic
import SqlScribe.Proofs.Schema.Loaders
import SqlScribe.Proofs.Statement.SameWords
import SqlScribe.Proofs.Question.WholeWords
import SqlScribe.Proofs.Expression.Separation
import SqlScribe.Proofs.Schema.Records
