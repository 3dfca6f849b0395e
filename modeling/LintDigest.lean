import LintDigest.CommandLine
import LintDigest.CommandLine.Words
import LintDigest.Config.Basic
import LintDigest.Config.File
import LintDigest.Document.Basic
import LintDigest.Document.Codec
import LintDigest.Document.Line
import LintDigest.Document.Merge
import LintDigest.Error
import LintDigest.Gate
import LintDigest.Glob
import LintDigest.Lock
import LintDigest.Log
import LintDigest.Main
import LintDigest.Modules
import LintDigest.Outcome
import LintDigest.Outcome.Print
import LintDigest.Page
import LintDigest.Path.Basic
import LintDigest.Path.Relative
import LintDigest.Program
import LintDigest.Report.Reader
import LintDigest.Report.Tool
import LintDigest.Script
import LintDigest.Session
import LintDigest.Severity
import LintDigest.Storage
import LintDigest.Summary.Bundle
import LintDigest.Summary.Rule
import LintDigest.Text.Blank
import LintDigest.Text.Decimal
import LintDigest.Text.Json
import LintDigest.Text.Markup
import LintDigest.Text.Split
import LintDigest.Text.Style
import LintDigest.Text.Terminal
import LintDigest.Toml.Document
import LintDigest.Toml.Item
import LintDigest.Toml.Quoted
import LintDigest.Toml.Scalar
import LintDigest.Tree.Basic
import LintDigest.Workspace
import LintDigest.Xml.Alphabet
import LintDigest.Xml.Fault
import LintDigest.Xml.Node
import LintDigest.Xml.Token
import LintDigest.Yaml.Alphabet
import LintDigest.Yaml.Node
import LintDigest.Yaml.Scalar
import LintDigest.Yaml.Token
import LintDigest.Proofs.Except
import LintDigest.Proofs.Text.Bytes
import LintDigest.Proofs.Text.Decimal
import LintDigest.Proofs.Text.Markup
import LintDigest.Proofs.Text.Search
import LintDigest.Proofs.Text.References
import LintDigest.Proofs.Text.Split
import LintDigest.Proofs.Text.Squash
import LintDigest.Proofs.Xml.Written
import LintDigest.Proofs.Xml.Tree
import LintDigest.Proofs.Xml.Places
import LintDigest.Proofs.Xml.Characters
import LintDigest.Proofs.Document.Paths
import LintDigest.Proofs.Document.Codec
import LintDigest.Proofs.Document.Merge
import LintDigest.Proofs.Document.Canonical
import LintDigest.Proofs.Document.Counts
import LintDigest.Proofs.Document.Gather
import LintDigest.Proofs.Document.Conservation
import LintDigest.Proofs.Page.Rules
import LintDigest.Proofs.Page.Tags
import LintDigest.Proofs.Lock.Turns
import LintDigest.Proofs.Lock.Monitor
import LintDigest.Proofs.Path.Steps
import LintDigest.Proofs.Path.Components
import LintDigest.Proofs.Path.Order
import LintDigest.Proofs.Tree.Walk
import LintDigest.Proofs.Tree.Operations
import LintDigest.Proofs.Script.Run
import LintDigest.Proofs.Script.Course
import LintDigest.Proofs.Glob.Search
import LintDigest.Proofs.Storage.Replace
import LintDigest.Proofs.Tree.Aim
import LintDigest.Proofs.Config.Inputs
import LintDigest.Proofs.Config.Root
import LintDigest.Proofs.Storage.AllOrNothing
import LintDigest.Proofs.Path.Relative
import LintDigest.Proofs.Path.Ancestors
import LintDigest.Proofs.Path.Unlinked
import LintDigest.Proofs.Summary.Names
import LintDigest.Proofs.Summary.Update
import LintDigest.Proofs.Summary.Aggregate
import LintDigest.Proofs.Summary.Rows
import LintDigest.Proofs.Summary.Undo
import LintDigest.Proofs.Summary.Frame
import LintDigest.Proofs.Summary.Course
import LintDigest.Proofs.Summary.Deferred
import LintDigest.Proofs.Summary.Freshness
import LintDigest.Proofs.Summary.Granted
import LintDigest.Proofs.Report.Produced
import LintDigest.Proofs.Session.Persisted
import LintDigest.Proofs.Session.Passage
import LintDigest.Proofs.Session.Totals
import LintDigest.Proofs.Summary.Alike
import LintDigest.Proofs.Tree.Twin
import LintDigest.Proofs.Script.Coupled
import LintDigest.Proofs.Script.Guarded
import LintDigest.Proofs.Summary.Coupled
import LintDigest.Proofs.Session.Interleaving
import LintDigest.Proofs.Summary.Abreast
import LintDigest.Proofs.Session.Reports
import LintDigest.Proofs.Session.Separate
import LintDigest.Proofs.Program.Batches
import LintDigest.Proofs.Summary.Parallel
import LintDigest.Proofs.Summary.ParallelUpdate
import LintDigest.Proofs.Summary.Sources
import LintDigest.Proofs.Session.SideBySide
import LintDigest.Proofs.Report.Entries
import LintDigest.Proofs.Report.Messages
import LintDigest.Proofs.Report.Severities
import LintDigest.Proofs.Session.Isolation
import LintDigest.Proofs.Session.Calls
import LintDigest.Proofs.Session.Restart
import LintDigest.Proofs.Session.Reset
import LintDigest.Proofs.Modules.Find
