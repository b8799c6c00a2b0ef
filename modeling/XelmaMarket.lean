import XelmaMarket.Lib.Transaction
import XelmaMarket.Storage
import XelmaMarket.Common
import XelmaMarket.Admin
import XelmaMarket.AccessControl
import XelmaMarket.Insurance
import XelmaMarket.Config
import XelmaMarket.Governance
import XelmaMarket.Leaderboard
import XelmaMarket.Betting
import XelmaMarket.Settlement
import XelmaMarket.Oracle
import XelmaMarket.Queries
import XelmaMarket.Contract
import XelmaMarket.Accounts
import XelmaMarket.Lib.Apportion
import XelmaMarket.Lib.ClosestScan
import XelmaMarket.Plan
import XelmaMarket.Payout
import XelmaMarket.PrecisionPayout
import XelmaMarket.Ending
import XelmaMarket.Effect
import XelmaMarket.Inversion
import XelmaMarket.Resolution
import XelmaMarket.CallEffect
import XelmaMarket.Proceeds
import XelmaMarket.RoundOrder
import XelmaMarket.RoundChanges
import XelmaMarket.Invariant
import XelmaMarket.Ledger
import XelmaMarket.Steering
import XelmaMarket.Frame
import XelmaMarket.Wealth
import XelmaMarket.History
import XelmaMarket.Script
import XelmaMarket.Conservation
import XelmaMarket.Isolation
import XelmaMarket.Receipts
import XelmaMarket.Refunds
import XelmaMarket.Custody
import XelmaMarket.UpDownSettlement
import XelmaMarket.PrecisionSettlement
import XelmaMarket.Replay
import XelmaMarket.Proposals
import XelmaMarket.DualControl
import XelmaMarket.Treasury
import XelmaMarket.Pause
import XelmaMarket.ConfigKeys
import XelmaMarket.OracleGuards
import XelmaMarket.Archive
import XelmaMarket.Roles
import XelmaMarket.Timelock
import XelmaMarket.Timing
import XelmaMarket.Standings
import XelmaMarket.Scores
import XelmaMarket.SettlementMath
import XelmaMarket.Engine
import XelmaMarket.Arithmetic
import XelmaMarket.Parity
import XelmaMarket.ReplayEngine
import XelmaMarket.Summaries
import XelmaMarket.Reproduction
import XelmaMarket.Preview
import XelmaMarket.BookPlan
import XelmaMarket.BetOrder
import XelmaMarket.Lib.Blindness
import XelmaMarket.MarketReads
import XelmaMarket.Constitution
import XelmaMarket.Ratification
import XelmaMarket.PrecisionLimits
import XelmaMarket.Minting
import XelmaMarket.Execution
import XelmaMarket.Lib.Avoidance
import XelmaMarket.SettlementErrors
import XelmaMarket.HeartbeatGate
import XelmaMarket.Samples
import XelmaMarket.RoundStatus
import XelmaMarket.Participation
import XelmaMarket.Dispute
import XelmaMarket.Feeds
import XelmaMarket.Override
import XelmaMarket.BatchClaims
import XelmaMarket.Seasons
import XelmaMarket.Principal
import XelmaMarket.Coverage
import XelmaMarket.Fallback
import XelmaMarket.Reveals
import XelmaMarket.Outcomes
import XelmaMarket.Lib.FailsOnly
import XelmaMarket.Headroom
import XelmaMarket.Settling
import XelmaMarket.Closing
import XelmaMarket.Transfers
import XelmaMarket.Supply
import XelmaMarket.Counters
import XelmaMarket.MoneyPaths
import XelmaMarket.Lib.ShiftSort
import XelmaMarket.Median
import XelmaMarket.Scoring
import XelmaMarket.Committee
import XelmaMarket.Lib.WeightedMedian
import XelmaMarket.Lib.Traverse
import XelmaMarket.ReplayTraps
import XelmaMarket.PoolStats
import XelmaMarket.SummaryPot
import XelmaMarket.HistoryPages
import XelmaMarket.Lib.Paging
import XelmaMarket.ParticipantPages
import XelmaMarket.LeaderboardPages
import XelmaMarket.Lib.Follows
import XelmaMarket.Caps
import XelmaMarket.Recovery
import XelmaMarket.WindDown
import XelmaMarket.Lib.SortedMap
import XelmaMarket.Lib.Windows
import XelmaMarket.ReferenceModel
import XelmaMarket.Harness
import XelmaMarket.HarnessEnds
import XelmaMarket.Differential
import XelmaMarket.LegacySettlement
import XelmaMarket.PositionReads
import XelmaMarket.AccessLists
import XelmaMarket.ReplayRecords
import XelmaMarket.FeeConservation
import XelmaMarket.Lib.Simulation
import XelmaMarket.MarketView
