import LoopLab.Metrics

/-!
# Events and the folded run state

The records the fold reads and writes. A field the source assigns straight from an event payload is a `Json`; a
field it normalises first has the normal form's type.
-/

set_option autoImplicit false

namespace LoopLab
open Lib

structure Event where
  v : Int := 1
  seq : Int := -1
  ts : Rat := 0
  type : String
  data : Obj := []
  traceId : Option String := none
  spanId : Option String := none

inductive NodeStatus where
  | pending | evaluated | failed
  deriving DecidableEq, Repr

inductive CostKind where
  | node | confirm | noise | holdout | upstream
  deriving DecidableEq, Repr

structure Idea where
  operator : String := ""
  params : Json := .obj []
  rationale : String := ""
  evalProfile : Option String := none
  evalTimeout : Option Rat := none
  space : Json := .obj []
  hypothesis : Option String := none
  cardId : Option String := none
  parentCardId : Option String := none
  nodeKind : Json := .null

structure StageRow where
  name : Json
  status : Json
  exitCode : Json
  seconds : Json
  repairs : Int

/-- A row of the append-only stage ledger: the stage row stamped with lifecycle and position. -/
structure StageAttempt extends StageRow where
  generation : Nat
  seq : Int

/-- The receipt of a node that is its parent's program with one block commented out. -/
structure Simplification where
  parentId : Int
  generation : Int
  block : Nat
  ablationId : String

structure AgentReport where
  ok : Json
  checks : Json
  fellBack : Json
  attempts : Json
  shippedOk : Json

structure Node where
  id : Int
  parentIds : List Int := []
  parentGenerations : List (Int × Nat) := []
  operator : Json := .null
  idea : Idea := {}
  code : Json := .str ""
  files : Json := .obj []
  deleted : Json := .arr []
  kind : Option String := none
  attempt : Nat := 0
  creationEventSeq : Option Int := none
  simplified : Option Simplification := none
  speculative : Bool := false
  cardBuildGeneration : Option Int := none
  evalStartBoundary : Bool := false
  tombstoned : Bool := false
  status : NodeStatus := .pending
  terminalEventSeq : Option Int := none
  metric : Json := .null
  taskMetric : Json := .null
  selfMetric : Option Rat := none
  error : Json := .str ""
  errorReason : String := ""
  triageRationale : String := ""
  stdoutTail : Json := .str ""
  stderrTail : String := ""
  resourceCurve : Option (List (Rat × Rat)) := none
  evalSeconds : Json := .null
  neverEvaluated : Bool := false
  evalStarted : Bool := false
  evalActivityStarted : Bool := false
  evalStartedAt : Option Rat := none
  extraMetrics : Dict String Rat := Table.empty
  extraMetricsProvenance : Dict String String := Table.empty
  extraMetricsDirection : Dict String String := Table.empty
  extraMetricsBackfill : Obj := []
  extraMetricsOmitted : Obj := []
  violations : Json := .arr []
  feasible : Bool := true
  metricProvenance : Option Obj := none
  activation : Option Obj := none
  trials : List Json := []
  confirmedMean : Option Rat := none
  confirmedStd : Option Rat := none
  confirmedSeeds : Option Int := none
  confirmedRuler : Option String := none
  holdoutMetric : Option Rat := none
  verifierScore : Option Rat := none
  verifierRawScore : Option (String × Rat) := none
  valuePrior : Option Rat := none
  agentReport : Option AgentReport := none
  stages : List StageRow := []
  stageAttempts : List StageAttempt := []
  failedStage : Json := .null
  repairs : Int := 0
  rerunFrom : Json := .null
  rerunStage : Json := .null

/-- What a build in flight says of itself; a marker without a stamp binds every lifecycle. -/
structure Marker where
  nodeId : Int
  operator : Json
  parentIds : Json
  started : Rat
  cardId : Option String := none
  generation : Option Nat

structure Marks where
  building : Option Marker := none
  buildings : Dict Int Marker := Table.empty

structure ObjectiveRow where
  seq : Int
  key : Option String
  previous : Option String
  goal : Option String
  previousGoal : Json

structure RewardHack where
  nodeId : Option Int
  signals : List Obj
  evidenceVersion : Json
  codeDigest : Json
  generation : Option Nat

structure RepairRow where
  nodeId : Int
  attempt : Json
  generation : Json
  reason : Option String
  paths : List String
  rationale : Option String

structure RepairsOmitted where
  rows : Nat := 0
  nodes : Dict Int Nat := Table.empty

def VERIFIER_SELECTION_CONTRACT : String := "selection-criteria:v1"

structure RunState where
  runId : Json := .str ""
  goal : Json := .str ""
  direction : String := "min"
  objectiveKey : Option String := none
  objectiveHistory : List ObjectiveRow := []
  trustGate : String := "audit"
  holdoutSelect : Bool := false
  holdoutFraction : Option Rat := none
  splitSaltDisclosure : Bool := false
  selectVerifierTiebreak : Bool := false
  verifierCiTie : Bool := false
  selectVerifierSamples : Int := 3
  selectVerifierContract : String := VERIFIER_SELECTION_CONTRACT
  nodes : Table Node.id := Table.empty
  currentFailureCount : Int := 0
  failureSpikeLevel : Int := 0
  failureSpikeSeq : Option Int := none
  finished : Bool := false
  lastFinishSeq : Int := -1
  finalizedFinishSeq : Int := -1
  finalizationMarkerSeq : Option Int := none
  hostGrading : Option Obj := none
  stopReason : Json := .null
  stopDetail : Option String := none
  stopRequested : Json := .null
  lastStopRequestSeq : Int := -1
  confirmedDone : Bool := false
  searchEpoch : Int := 0
  splitEpoch : Int := 0
  lastResumeRequestSeq : Int := 0
  lastResumeServedSeq : Int := 0
  lastResumeRequestTs : Rat := 0
  lastResumeRequestMode : String := "resume"
  lastResumeLaunchSeq : Int := 0
  lastResumeLaunchTs : Rat := 0
  awaitingApproval : Bool := false
  approved : Bool := false
  approvalSubject : Option Int := none
  approvalGeneration : Option Nat := none
  approvalRequestSeq : Option Int := none
  approvedNodeId : Option Int := none
  totalEvalSeconds : Rat := 0
  evalSecondsByKind : Dict CostKind Rat := Table.empty
  confirmSeedResults : Dict Int (Dict Int (Option Rat)) := Table.empty
  evalNoiseSeedResults : Dict Int (Dict Int (Option Rat)) := Table.empty
  holdoutEvaluatedIds : List Int := []
  holdoutEpochAware : Bool := false
  holdoutPartitionDisclosed : Bool := false
  paused : Bool := false
  pauseNodeId : Option Int := none
  pauseGeneration : Option Nat := none
  pauseEventSeq : Option Int := none
  pauseReason : Option String := none
  pauseDrainBuilds : Bool := false
  abortedNodes : List Int := []
  confirmRequests : List Int := []
  confirmRequestGenerations : List (Int × Nat) := []
  confirmedForced : List Int := []
  confirmedForcedGenerations : List (Int × Nat) := []
  ablateRequests : List Int := []
  ablateRequestGenerations : List (Int × Nat) := []
  forkRequests : List Obj := []
  promotions : List Obj := []
  champion : Option Int := none
  ablations : List Obj := []
  policyScores : Dict Int Json := Table.empty
  policyChosen : Json := .null
  policyReason : Json := .str ""
  proxyScores : Dict Int Json := Table.empty
  proxySkipped : List Int := []
  rewardHacks : List RewardHack := []
  hypothesisRanking : Option Obj := none
  repairLedger : List RepairRow := []
  repairLedgerOmitted : RepairsOmitted := {}
  breedExcluded : List Int := []

/-- The fold's working memory: the keys already charged, and the confirmed winner's certificate. -/
structure FoldCtx where
  bestConfirmed : Option Int := none
  bestConfirmedSignificant : Bool := true
  chargedTerminalGenerations : List (Int × Nat) := []
  chargedConfirmSeeds : List (Int × Nat × Int) := []
  chargedNoiseSeeds : List (Int × Int × Int) := []
  chargedHoldoutKeys : List (Int × Option Int × Option Int) := []
  chargedRepairSeqs : List (Int × Int) := []
  chargedAblationIds : List String := []
  repairLedgerKeys : List (Int × Json × Json) := []
  repairLedgerPerNode : Dict Int Nat := Table.empty

structure FoldCore where
  st : RunState := {}
  ctx : FoldCtx := {}

structure FoldState extends FoldCore where
  marks : Marks := {}

structure Evidence where
  direction : String
  nodeId : Int
  generation : Nat
  rationale : String
  metric : Option Rat
  confirmedMean : Option Rat
  confirmedStd : Option Rat
  confirmedSeeds : Option Int
  holdoutMetric : Option Rat
  generalizationGap : Option Rat

/-- What the fold takes from code outside the model: the validated proposal and trial models, the
text of a value that is not a string, whether a simplification receipt can be computed, the digest
of verifier evidence, the groups of tied champions and the printable characters. -/
structure Env where
  idea : Json → Option Idea
  trial : Json → Option Json
  render : Json → String
  simplifiable : Option Node → Obj → Bool
  digest : Evidence → String
  tieGroups : RunState → List (List Int)
  printable : Char → Bool := fun _ => true

/-- `str(v)` -/
def Env.str (env : Env) : Json → String
  | .str s => s
  | v => env.render v

/-- An environment for small runs: proposals that name an operator, plain trials, no tied groups. -/
def Env.plain : Env where
  idea v := v.obj?.bind fun d => (d.get "operator").str?.map fun _ =>
    { rationale := (d.get "rationale").str?.getD "" }
  trial v := some v
  render _ := ""
  simplifiable _ _ := true
  digest _ := ""
  tieGroups _ := []

def Json.ofMetric : Option Rat → Json
  | some q => .float q
  | none => .null

namespace RunState

def aborted (st : RunState) (id : Int) : Bool := st.abortedNodes.contains id

def setNode (st : RunState) (n : Node) : RunState := { st with nodes := st.nodes.put n }

/-- `for n in st.nodes.values(): ...` -/
def mapNodes (st : RunState) (f : Node → Node) (hf : ∀ n, (f n).id = n.id) : RunState :=
  { st with nodes := st.nodes.mapRows f hf }

end RunState

end LoopLab
