import LoopLab.Guarantees.VerdictSupport
import LoopLab.Guarantees.Durability
import LoopLab.Guarantees.RepairBoundary
import LoopLab.Guarantees.Reset
import LoopLab.Guarantees.Budget
import LoopLab.Guarantees.FirstTerminal
import LoopLab.Guarantees.Superseded
import LoopLab.Guarantees.RequestQueues
import LoopLab.Guarantees.VerifierGroups
import LoopLab.Guarantees.UsableScores
import LoopLab.Guarantees.Stalls
import LoopLab.Guarantees.StageKeys
import LoopLab.Guarantees.Enrichments
import LoopLab.Guarantees.NodeRows
import LoopLab.Guarantees.Devices
import LoopLab.Guarantees.Elections
import LoopLab.Guarantees.Freshness
import LoopLab.Guarantees.Episodes
import LoopLab.Guarantees.PaidOnce
import LoopLab.Guarantees.Admission
import LoopLab.Guarantees.Comments
import LoopLab.Guarantees.PaidCuration
import LoopLab.Guarantees.Conservation
import LoopLab.Guarantees.Canonical
import LoopLab.Guarantees.RolePairs
import LoopLab.Guarantees.LaneAllowance
import LoopLab.Guarantees.Launches
import LoopLab.Guarantees.EvalCharges
import LoopLab.Guarantees.RepairAllowances
import LoopLab.Guarantees.PaidBuilds
import LoopLab.Guarantees.Commits
import LoopLab.Guarantees.Gates
import LoopLab.Guarantees.Recoveries
import LoopLab.Guarantees.TieBand
import LoopLab.Guarantees.SimplerTie
import LoopLab.Guarantees.PatchGate
import LoopLab.Guarantees.Holm
import LoopLab.Guarantees.RatioDeltas
import LoopLab.Guarantees.ParetoFront
import LoopLab.Guarantees.EditBlocks
import LoopLab.Guarantees.Overspend
import LoopLab.Guarantees.Occupancy
import LoopLab.Guarantees.ConceptDepth
import LoopLab.Guarantees.ConceptForest
import LoopLab.Guarantees.LogFloor
import LoopLab.Guarantees.TraceJson
import LoopLab.Guarantees.Extraction
import LoopLab.Guarantees.Histories
import LoopLab.Guarantees.Pages
import LoopLab.Guarantees.Leashes
import LoopLab.Guarantees.TraceLines
import LoopLab.Guarantees.Consolidation
import LoopLab.Guarantees.SingleFlight
import LoopLab.Guarantees.Endgame
import LoopLab.Guarantees.StageLogs
import LoopLab.Guarantees.NpyArrays
