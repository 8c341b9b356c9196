import MonitorExport.CommandLine.Workspace
import MonitorExport.Export.Rules.Json
import MonitorExport.Main
import MonitorExport.Proofs.Catalogue.Preparations
import MonitorExport.Proofs.Catalogue.Sizes
import MonitorExport.Proofs.Export.Colours
import MonitorExport.Proofs.Export.Pruning
import MonitorExport.Proofs.Store.Atomicity
import MonitorExport.Rpc.Exchange
import MonitorExport.Samples.Sample
import MonitorExport.Sender.Exchange
import MonitorExport.Proofs.Export.Rosters
import MonitorExport.Proofs.Export.Gathering
import MonitorExport.Proofs.Export.NormalForm
import MonitorExport.Proofs.Export.Sparing
import MonitorExport.Proofs.Catalogue.Tables
import MonitorExport.Proofs.Catalogue.Members
import MonitorExport.Proofs.Export.Parts
import MonitorExport.Proofs.Catalogue.Elements
import MonitorExport.Proofs.Catalogue.Documents
import MonitorExport.Proofs.Catalogue.Exports
import MonitorExport.Proofs.Catalogue.Extracting
import MonitorExport.Proofs.Store.Twins
import MonitorExport.Proofs.Store.Copying
import MonitorExport.Proofs.Export.Duplicates
import MonitorExport.Proofs.Export.Splitting
import MonitorExport.Proofs.Export.Failures
import MonitorExport.Proofs.Catalogue.Fields
import MonitorExport.Proofs.Catalogue.References
import MonitorExport.Proofs.Catalogue.Hosts
import MonitorExport.Proofs.Catalogue.Screens
import MonitorExport.Proofs.Schema.Declaring
import MonitorExport.Proofs.Store.Values
import MonitorExport.Proofs.Export.Markup
import MonitorExport.Proofs.Export.Fresh
import MonitorExport.Proofs.Export.Hoisting
import MonitorExport.Proofs.Rpc.Sessions
import MonitorExport.Proofs.Store.Equality
import MonitorExport.Proofs.Store.Distinctness
import MonitorExport.Proofs.Export.Rollups
import MonitorExport.Proofs.Store.Duplicating
import MonitorExport.Proofs.Store.Extracting
import MonitorExport.Proofs.Store.Hydrating
import MonitorExport.Proofs.Export.Freezing
import MonitorExport.Proofs.Store.Extending
import MonitorExport.Proofs.Sender.Responses
import MonitorExport.Proofs.Catalogue.Addresses
import MonitorExport.Proofs.Store.Integers
import MonitorExport.Proofs.Validation.Periods
import MonitorExport.Proofs.Json.Strings
import MonitorExport.Proofs.Catalogue.Aggregates
import MonitorExport.Proofs.Schema.Overriding
import MonitorExport.Proofs.Schema.Inheriting
import MonitorExport.Proofs.Store.Retyping
import MonitorExport.Proofs.Store.Recasting
import MonitorExport.Proofs.Export.Recasting
import MonitorExport.Proofs.Export.Subtypes
import MonitorExport.Proofs.Json.Numbers
import MonitorExport.Proofs.Export.Nesting
import MonitorExport.Proofs.Store.Histories
