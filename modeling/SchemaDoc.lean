import SchemaDoc.Text.Blank
import SchemaDoc.Text.Decimal
import SchemaDoc.Text.Front
import SchemaDoc.Xml.Character
import SchemaDoc.Xml.Fault
import SchemaDoc.Xml.Scan
import SchemaDoc.Xml.Name
import SchemaDoc.Xml.Reference
import SchemaDoc.Xml.Token
import SchemaDoc.Xml.Node
import SchemaDoc.Xml.Namespace
import SchemaDoc.Xml.Tree
import SchemaDoc.Document.Fault
import SchemaDoc.Document.Element
import SchemaDoc.Event
import SchemaDoc.Text.Alphanumeric
import SchemaDoc.Text.Ascending
import SchemaDoc.Schema.Column
import SchemaDoc.Schema.Permission
import SchemaDoc.Schema.Table
import SchemaDoc.Schema.Database
import SchemaDoc.Schema.Finding
import SchemaDoc.Json.Value
import SchemaDoc.Schema.Record
import SchemaDoc.Sql.Dialect
import SchemaDoc.Sql.ColumnType
import SchemaDoc.Sql.Statement
import SchemaDoc.Sql.Ddl
import SchemaDoc.Sql.Grant
import SchemaDoc.CommandLine.Command
import SchemaDoc.CommandLine.Environment
import SchemaDoc.CommandLine.Report
import SchemaDoc.CommandLine.Summary
import SchemaDoc.CommandLine.Run
import SchemaDoc.CommandLine.Directory
import SchemaDoc.Main
import SchemaDoc.Proofs.Traversal
import SchemaDoc.Proofs.LastItem
import SchemaDoc.Proofs.Xml.Opening
import SchemaDoc.Proofs.Xml.Reading
import SchemaDoc.Proofs.Xml.Written
import SchemaDoc.Proofs.Xml.Transfer
import SchemaDoc.Proofs.Xml.Comments
import SchemaDoc.Proofs.Document.RoundTrip
import SchemaDoc.Proofs.Document.Following
import SchemaDoc.Proofs.Document.Commented
import SchemaDoc.Proofs.Document.Editing
import SchemaDoc.Proofs.Schema.Loading
import SchemaDoc.Proofs.Schema.Namespaces
import SchemaDoc.Proofs.Schema.Telling
import SchemaDoc.Proofs.Schema.Violations
import SchemaDoc.Proofs.Schema.Noninterference
import SchemaDoc.Proofs.Schema.Export
import SchemaDoc.Proofs.Schema.Image
import SchemaDoc.Proofs.Schema.Comments
import SchemaDoc.Proofs.Schema.Lengths
import SchemaDoc.Proofs.Schema.Resolution
import SchemaDoc.Proofs.Schema.Shadowing
import SchemaDoc.Proofs.Schema.Rearranging
import SchemaDoc.Proofs.Json.Unambiguous
import SchemaDoc.Proofs.Json.Indentation
import SchemaDoc.Proofs.Sql.Statements
import SchemaDoc.Proofs.Sql.Outcome
import SchemaDoc.Proofs.Sql.Catalog
import SchemaDoc.Proofs.Sql.Duplicates
import SchemaDoc.Proofs.Sql.Quotation
import SchemaDoc.Proofs.Sql.Script
import SchemaDoc.Proofs.Sql.Symbols
import SchemaDoc.Proofs.Sql.Spelling
import SchemaDoc.Proofs.Sql.DeclaredKeys
import SchemaDoc.Proofs.Sql.Items
import SchemaDoc.Proofs.Sql.AddedKeys
import SchemaDoc.Proofs.Sql.KeyPartition
import SchemaDoc.Proofs.Sql.ConstraintNames
import SchemaDoc.Proofs.Sql.Creating
import SchemaDoc.Proofs.Sql.StatementReading
import SchemaDoc.Proofs.Sql.Execution
import SchemaDoc.Proofs.Sql.Rerun
import SchemaDoc.Proofs.Sql.PrimaryKeys
import SchemaDoc.Proofs.Sql.Reordering
import SchemaDoc.Proofs.Sql.Granting
import SchemaDoc.Proofs.Sql.GrantReading
import SchemaDoc.Proofs.Sql.Accounting
import SchemaDoc.Proofs.Sql.GrantWords
import SchemaDoc.Proofs.Sql.Autoincrement
import SchemaDoc.Proofs.CommandLine.Stages
import SchemaDoc.Proofs.CommandLine.Agreement
import SchemaDoc.Proofs.CommandLine.Overriding
import SchemaDoc.Proofs.CommandLine.Checking
import SchemaDoc.Proofs.CommandLine.Inspecting
