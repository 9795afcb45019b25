import ItemConditions.CommandLine.Run
import ItemConditions.Main
import ItemConditions.Session
import ItemConditions.Yaml.Printer
import ItemConditions.Yaml.Reader
import ItemConditions.Proofs.Binary64.Value
import ItemConditions.Proofs.Binary64.Whole
import ItemConditions.Proofs.Binary64.Numeral
import ItemConditions.Proofs.Binary64.Spelling
import ItemConditions.Proofs.Text.Cut
import ItemConditions.Proofs.Placeholder.Classification
import ItemConditions.Proofs.Clause
import ItemConditions.Proofs.Command.Count
import ItemConditions.Proofs.Command.Forms
import ItemConditions.Proofs.Command.RoundTrip
import ItemConditions.Proofs.Script.Pieces
import ItemConditions.Proofs.Script.RoundTrip
import ItemConditions.Proofs.Value.Replacement
import ItemConditions.Proofs.Value.DistinctKeys
import ItemConditions.Proofs.Document.Access
import ItemConditions.Proofs.Document.Addressing
import ItemConditions.Proofs.Document.Agreement
import ItemConditions.Proofs.Document.Changes
import ItemConditions.Proofs.Document.DistinctKeys
import ItemConditions.Proofs.Discovery
import ItemConditions.Proofs.Spread.Targets
import ItemConditions.Proofs.Spread.Effect
import ItemConditions.Proofs.Spread.Again
import ItemConditions.Proofs.Document.InPlace
import ItemConditions.Proofs.Session.Step
import ItemConditions.Proofs.Workspace
import ItemConditions.Proofs.Session.Run
import ItemConditions.Proofs.Session.Settled
import ItemConditions.Proofs.Session.KeptLines
import ItemConditions.Proofs.Clause.Grammar
import ItemConditions.Proofs.Command.Grammar
import ItemConditions.Proofs.CommandLine
import ItemConditions.Proofs.Value.Container
import ItemConditions.Proofs.Document.Effect
import ItemConditions.Proofs.Spread.Independent
import ItemConditions.Proofs.Json.Layout
import ItemConditions.Proofs.Record.Reading
import ItemConditions.Proofs.Record.RoundTrip
import ItemConditions.Proofs.Record.Exchange
import ItemConditions.Proofs.Json.Texts
import ItemConditions.Proofs.ItemPath.Text
import ItemConditions.Proofs.Script.Warnings
import ItemConditions.Proofs.Script.Written
import ItemConditions.Proofs.Command.KeptCount
import ItemConditions.Proofs.Record.Edit
import ItemConditions.Proofs.Placeholder.Rebuilding
import ItemConditions.Proofs.FileTree.Items
import ItemConditions.Proofs.FileTree.Archive
