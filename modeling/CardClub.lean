import CardClub.Call
import CardClub.Json.Record
import CardClub.Startup
import CardClub.Proofs.Composition
import CardClub.Proofs.Schema
import CardClub.Proofs.Atomicity
import CardClub.Proofs.History
import CardClub.Proofs.Effect
import CardClub.Proofs.Award
import CardClub.Proofs.Listing
import CardClub.Proofs.Credit
import CardClub.Proofs.Closing
import CardClub.Proofs.Freeze
import CardClub.Proofs.Settled
import CardClub.Proofs.Placement
import CardClub.Proofs.PointsLedger
import CardClub.Proofs.UndoEnd
import CardClub.Proofs.Stragglers
import CardClub.Proofs.Rounding
import CardClub.Proofs.Deletion
import CardClub.Proofs.Money
import CardClub.Proofs.BudgetLedger
import CardClub.Proofs.FailedCalls
import CardClub.Proofs.FrozenField
import CardClub.Proofs.Lifecycle
import CardClub.Proofs.Reordering
import CardClub.Proofs.BatchUpdate
import CardClub.Proofs.Leaderboard
import CardClub.Proofs.EventOrder
import CardClub.Proofs.Isolation
import CardClub.Proofs.Constraints
import CardClub.Proofs.Readability
import CardClub.Proofs.RecordJson
import CardClub.Proofs.Payment
import CardClub.Proofs.Failing
import CardClub.Proofs.EndEffect
import CardClub.Proofs.EndFailure
import CardClub.Proofs.UndoFailure
import CardClub.Proofs.ExactPoints
import CardClub.Proofs.MultiplierValue
import CardClub.Proofs.Cancellation
import CardClub.Proofs.FinishingOrder
import CardClub.Proofs.Positions
import CardClub.Proofs.Entry
import CardClub.Proofs.ReadBack
import CardClub.Proofs.Amendment
import CardClub.Proofs.Layering
import CardClub.Proofs.PartialSums
import CardClub.Proofs.Seats
import CardClub.Proofs.PlanNetting
