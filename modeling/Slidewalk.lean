import Slidewalk.Command
import Slidewalk.Config
import Slidewalk.Graph
import Slidewalk.Import
import Slidewalk.Main
import Slidewalk.Report
import Slidewalk.Salsa.Recommend
import Slidewalk.Proofs.NodeIndex.Numbering
import Slidewalk.Proofs.Pool.PowerLaw
import Slidewalk.Proofs.Pool.Promotion
import Slidewalk.Proofs.Pool.ExactFit
import Slidewalk.Proofs.Pool.Rows
import Slidewalk.Proofs.Bucket
import Slidewalk.Proofs.Shore
import Slidewalk.Proofs.Segment
import Slidewalk.Proofs.Ledger
import Slidewalk.Proofs.Window
import Slidewalk.Proofs.Repacking
import Slidewalk.Proofs.Adding
import Slidewalk.Proofs.Following
import Slidewalk.Proofs.EdgeCodec
import Slidewalk.Proofs.Reading
import Slidewalk.Proofs.AcceptedHistory
import Slidewalk.Proofs.LayoutIndependence
import Slidewalk.Proofs.Rejection
import Slidewalk.Proofs.Renaming.Pairing
import Slidewalk.Proofs.Renaming.Storage
import Slidewalk.Proofs.Renaming.Tables
import Slidewalk.Proofs.Renaming.Window
import Slidewalk.Proofs.Renaming.Seeding
import Slidewalk.Proofs.Renaming.Walk
import Slidewalk.Proofs.Ranking
import Slidewalk.Proofs.Renaming.Recommendation
import Slidewalk.Proofs.IdOrder
import Slidewalk.Proofs.Outline
import Slidewalk.Proofs.Orderly
import Slidewalk.Proofs.Moving
import Slidewalk.Proofs.WindowInvariant
import Slidewalk.Proofs.HeldSnapshot
import Slidewalk.Proofs.HeldEdges
import Slidewalk.Proofs.Walk.Crediting
import Slidewalk.Proofs.Walk.Justified
import Slidewalk.Proofs.Binary64.Whole
import Slidewalk.Proofs.Walk.Tally
import Slidewalk.Proofs.Walk.Connected
import Slidewalk.Proofs.Walk.Conservation
import Slidewalk.Proofs.Limits
import Slidewalk.Proofs.Totals
import Slidewalk.Proofs.Pool.Occupancy
import Slidewalk.Proofs.Pool.Run
import Slidewalk.Proofs.Pool.AppendOnly
import Slidewalk.Proofs.Pool.SlotBudget
import Slidewalk.Proofs.Pool.ClassAccounts
import Slidewalk.Proofs.Balance
import Slidewalk.Proofs.WholeEdges
import Slidewalk.Proofs.Tidiness
import Slidewalk.Proofs.Maintenance
import Slidewalk.Proofs.Accounting
import Slidewalk.Proofs.Statistics
import Slidewalk.Proofs.Walk.Locality
import Slidewalk.Proofs.Validation
import Slidewalk.Proofs.Acceptance
import Slidewalk.Proofs.NodeIndex.FirstSeen
import Slidewalk.Proofs.Pool.Reached
import Slidewalk.Proofs.Pool.Copying
import Slidewalk.Proofs.Pool.Prediction
import Slidewalk.Proofs.Pool.NodeBound
import Slidewalk.Proofs.Pool.Merging
import Slidewalk.Proofs.Recency
import Slidewalk.Proofs.Walk.ProofContent
import Slidewalk.Proofs.FullRanking
import Slidewalk.Proofs.Walk.EarlyStop
import Slidewalk.Proofs.Walk.Reach
import Slidewalk.Proofs.Importing
import Slidewalk.Proofs.Binary64.Nonnegative
import Slidewalk.Proofs.Walk.Seeds
import Slidewalk.Proofs.Walk.Apportionment
import Slidewalk.Proofs.NodeIndex.LoadFactor
import Slidewalk.Proofs.SocialProof.Accounts
import Slidewalk.Proofs.SocialProof.Listing
import Slidewalk.Proofs.Csv.Lines
import Slidewalk.Proofs.Text.Numerals
import Slidewalk.Proofs.Csv.Sheet
import Slidewalk.Proofs.Exporting
