import CampusQuery.Main
import CampusQuery.Service.Handler
import CampusQuery.Proofs.Query.Grouped
import CampusQuery.Proofs.Query.OrderLaw
import CampusQuery.Proofs.Query.Typing
import CampusQuery.Proofs.Dataset.Registry
import CampusQuery.Proofs.Query.Namespace
import CampusQuery.Proofs.Query.Ungrouped
import CampusQuery.Proofs.Query.Algebra
import CampusQuery.Proofs.Query.Encoding
import CampusQuery.Proofs.Json.Finite
import CampusQuery.Proofs.Query.ErrorOrigin
import CampusQuery.Proofs.Dataset.Lookup
import CampusQuery.Proofs.Dataset.History
import CampusQuery.Proofs.Dataset.Rows
import CampusQuery.Proofs.Service.Demand
import CampusQuery.Proofs.Service.Atomicity
import CampusQuery.Proofs.Dataset.Exclusion
import CampusQuery.Proofs.Service.Stages
import CampusQuery.Proofs.Service.Interleaving
import CampusQuery.Proofs.Query.Restriction
import CampusQuery.Proofs.Query.RollUp
import CampusQuery.Proofs.Query.Locality
import CampusQuery.Proofs.CommandLine.Agreement
import CampusQuery.Proofs.Query.Permutation
import CampusQuery.Proofs.Query.Mean
import CampusQuery.Proofs.CommandLine.Columns
import CampusQuery.Proofs.Service.WrittenCells
import CampusQuery.Proofs.Query.Total
import CampusQuery.Proofs.Query.Flaws
import CampusQuery.Proofs.Query.Counting
import CampusQuery.Proofs.Number.Grid
import CampusQuery.Proofs.Dataset.Rendering
import CampusQuery.Proofs.Query.Resolution
import CampusQuery.Proofs.Query.UnknownNames
import CampusQuery.Proofs.Query.Limit
import CampusQuery.Proofs.Query.Pattern
import CampusQuery.Proofs.Dataset.Year
import CampusQuery.Proofs.Dataset.Identifier
import CampusQuery.Proofs.Dataset.RowForm
