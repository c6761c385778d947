import ExactCover.Constraint
import ExactCover.Naive
import ExactCover.Progress
import ExactCover.Solver
import ExactCover.Proofs.Ring
import ExactCover.Proofs.Undo
import ExactCover.Proofs.Layout
import ExactCover.Proofs.Settle
import ExactCover.Proofs.Settled
import ExactCover.Proofs.Growth
import ExactCover.Proofs.Rising
import ExactCover.Proofs.Onward
import ExactCover.Proofs.Boards
import ExactCover.Proofs.Presented
import ExactCover.Proofs.Explore
import ExactCover.Proofs.Intact
import ExactCover.Proofs.Refine
import ExactCover.Proofs.Depth
import ExactCover.Proofs.Reports
import ExactCover.Proofs.Covers
import ExactCover.Proofs.Lawful
import ExactCover.Proofs.Preselected
import ExactCover.Proofs.Calls
import ExactCover.Proofs.Found
import ExactCover.Proofs.Twins
import ExactCover.Proofs.Restored
import ExactCover.Proofs.Moves
import ExactCover.Proofs.Views
import ExactCover.Proofs.Parallel
import ExactCover.Proofs.Mirrored
import ExactCover.Proofs.Counterparts
import ExactCover.Proofs.Orderly
import ExactCover.Proofs.Places
import ExactCover.Proofs.Bisimilar
import ExactCover.Proofs.Committing
import ExactCover.Proofs.Extensions
import ExactCover.Proofs.Mixed
import ExactCover.Proofs.Events
import ExactCover.Proofs.Script
import ExactCover.Proofs.Tree
import ExactCover.Proofs.Exchanges
import ExactCover.Proofs.Interrupted
import ExactCover.Proofs.Lifecycle
import ExactCover.Proofs.Levels
import ExactCover.Proofs.Cancelling
import ExactCover.Proofs.Faultless
import ExactCover.Proofs.Integrity
import ExactCover.Proofs.Construction
import ExactCover.Proofs.Guarded
import ExactCover.Proofs.Termination
import ExactCover.Proofs.Filing
import ExactCover.Proofs.Registration
import ExactCover.Proofs.Unfinished
import ExactCover.Proofs.Writes
import ExactCover.Proofs.Returning
import ExactCover.Proofs.Notices
import ExactCover.Proofs.Ledgers
import ExactCover.Proofs.Bookkeeping
import ExactCover.Proofs.Announced
import ExactCover.Proofs.Shares
import ExactCover.Proofs.Tours
