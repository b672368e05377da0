import LoopLab.Fold.Run

/-!
# The fold

Dispatch on the event's type, and the fold of a whole log. A type without a handler folds to nothing.
-/

set_option autoImplicit false

namespace LoopLab
open Lib

inductive EventType where
  | runStarted | metricRetarget | hostGrading | trustGateChanged
  | nodeBuilding | nodeCreated | nodeEvalStarted | nodeEvaluated | nodeFailed | nodeRepaired
  | nodeOverlayRebased | nodeTombstoned | nodeReset | nodeAbort | stageFinished
  | appliedParamsBackfilled | scoreMetricsBackfilled | extraMetricsImported
  | confirmEval | nodeConfirmed | evalNoiseSeed | holdoutEvaluated | agentValidated | proxyScored
  | nodeValueEstimated | nodeVerified | verifierGroupScored | rewardHackSuspected | bestConfirmed
  | approvalRequested | approvalGranted | ablate | forceConfirm | forceAblate | fork | promote
  | confirmDone | pause | restart | resume | runReopened | resumeRequested | resumeServed
  | runFinished | finalizationFinished | runAbort | upstreamExecution | policyDecision
  | hypothesisRanked
  deriving DecidableEq, Repr

namespace EventType

def name : EventType → String
  | runStarted => "run_started"
  | metricRetarget => "metric_retarget"
  | hostGrading => "host_grading"
  | trustGateChanged => "trust_gate_changed"
  | nodeBuilding => "node_building"
  | nodeCreated => "node_created"
  | nodeEvalStarted => "node_eval_started"
  | nodeEvaluated => "node_evaluated"
  | nodeFailed => "node_failed"
  | nodeRepaired => "node_repaired"
  | nodeOverlayRebased => "node_overlay_rebased"
  | nodeTombstoned => "node_tombstoned"
  | nodeReset => "node_reset"
  | nodeAbort => "node_abort"
  | stageFinished => "stage_finished"
  | appliedParamsBackfilled => "applied_params_backfilled"
  | scoreMetricsBackfilled => "score_metrics_backfilled"
  | extraMetricsImported => "extra_metrics_imported"
  | confirmEval => "confirm_eval"
  | nodeConfirmed => "node_confirmed"
  | evalNoiseSeed => "eval_noise_seed"
  | holdoutEvaluated => "holdout_evaluated"
  | agentValidated => "agent_validated"
  | proxyScored => "proxy_scored"
  | nodeValueEstimated => "node_value_estimated"
  | nodeVerified => "node_verified"
  | verifierGroupScored => "verifier_group_scored"
  | rewardHackSuspected => "reward_hack_suspected"
  | bestConfirmed => "best_confirmed"
  | approvalRequested => "approval_requested"
  | approvalGranted => "approval_granted"
  | ablate => "ablate"
  | forceConfirm => "force_confirm"
  | forceAblate => "force_ablate"
  | fork => "fork"
  | promote => "promote"
  | confirmDone => "confirm_done"
  | pause => "pause"
  | restart => "restart"
  | resume => "resume"
  | runReopened => "run_reopened"
  | resumeRequested => "resume_requested"
  | resumeServed => "resume_served"
  | runFinished => "run_finished"
  | finalizationFinished => "finalization_finished"
  | runAbort => "run_abort"
  | upstreamExecution => "upstream_execution"
  | policyDecision => "policy_decision"
  | hypothesisRanked => "hypothesis_ranked"

def all : List EventType :=
  [runStarted, metricRetarget, hostGrading, trustGateChanged, nodeBuilding, nodeCreated,
   nodeEvalStarted, nodeEvaluated, nodeFailed, nodeRepaired, nodeOverlayRebased, nodeTombstoned,
   nodeReset, nodeAbort, stageFinished, appliedParamsBackfilled, scoreMetricsBackfilled,
   extraMetricsImported, confirmEval, nodeConfirmed, evalNoiseSeed, holdoutEvaluated, agentValidated,
   proxyScored, nodeValueEstimated, nodeVerified, verifierGroupScored, rewardHackSuspected,
   bestConfirmed, approvalRequested, approvalGranted, ablate, forceConfirm, forceAblate, fork,
   promote, confirmDone, pause, restart, resume, runReopened, resumeRequested, resumeServed,
   runFinished, finalizationFinished, runAbort, upstreamExecution, policyDecision, hypothesisRanked]

def ofName (s : String) : Option EventType := all.find? (·.name = s)

end EventType

def Event.kind (e : Event) : Option EventType := EventType.ofName e.type

namespace FoldState

def lift (s : FoldState) (f : RunState → Event → RunState) (e : Event) : FoldState :=
  { s with st := f s.st e }

def liftCore (s : FoldState) (f : FoldCore → Event → FoldCore) (e : Event) : FoldState :=
  { s with toFoldCore := f s.toFoldCore e }

end FoldState

section Step
variable (pred : Int → Int) (env : Env)

def handle (s : FoldState) (e : Event) : EventType → FoldState
  | .runStarted => s.lift (onRunStarted env) e
  | .metricRetarget => s.liftCore onMetricRetarget e
  | .hostGrading => s.lift onHostGrading e
  | .trustGateChanged => s.lift (onTrustGateChanged env) e
  | .nodeBuilding => onNodeBuilding env s e
  | .nodeCreated => onNodeCreated env s e
  | .nodeEvalStarted => s.lift onNodeEvalStarted e
  | .nodeEvaluated => onNodeEvaluated env s e
  | .nodeFailed => onNodeFailed env s e
  | .nodeRepaired => s.liftCore (onNodeRepaired env) e
  | .nodeOverlayRebased => s.lift onNodeOverlayRebased e
  | .nodeTombstoned => onNodeTombstoned pred s e
  | .nodeReset => onNodeReset pred s e
  | .nodeAbort => onNodeAbort pred s e
  | .stageFinished => s.lift onStageFinished e
  | .appliedParamsBackfilled => s.lift (onAppliedParamsBackfilled env) e
  | .scoreMetricsBackfilled => s.lift onScoreMetricsBackfilled e
  | .extraMetricsImported => s.lift onExtraMetricsImported e
  | .confirmEval => s.liftCore onConfirmEval e
  | .nodeConfirmed => s.lift (onNodeConfirmed env) e
  | .evalNoiseSeed => s.liftCore onEvalNoiseSeed e
  | .holdoutEvaluated => s.liftCore (onHoldoutEvaluated env) e
  | .agentValidated => s.lift onAgentValidated e
  | .proxyScored => s.lift onProxyScored e
  | .nodeValueEstimated => s.lift onNodeValueEstimated e
  | .nodeVerified => s.lift (onNodeVerified env) e
  | .verifierGroupScored => s.lift (onVerifierGroupScored env) e
  | .rewardHackSuspected => s.lift onRewardHackSuspected e
  | .bestConfirmed => s.liftCore onBestConfirmed e
  | .approvalRequested => s.lift onApprovalRequested e
  | .approvalGranted => s.lift onApprovalGranted e
  | .ablate => s.liftCore onAblate e
  | .forceConfirm => s.lift onForceConfirm e
  | .forceAblate => s.lift onForceAblate e
  | .fork => s.lift onFork e
  | .promote => s.lift onPromote e
  | .confirmDone => s.lift onConfirmDone e
  | .pause => s.lift onPause e
  | .restart => s.lift onRestart e
  | .resume => s.liftCore onResumeOrRunReopened e
  | .runReopened => s.liftCore onResumeOrRunReopened e
  | .resumeRequested => s.lift onResumeRequested e
  | .resumeServed => s.lift onResumeServed e
  | .runFinished => onRunFinished env s e
  | .finalizationFinished => s.lift onFinalizationFinished e
  | .runAbort => s.lift onRunAbort e
  | .upstreamExecution => s.lift onUpstreamExecution e
  | .policyDecision => s.lift onPolicyDecision e
  | .hypothesisRanked => s.lift onHypothesisRanked e

def stepWith (s : FoldState) (e : Event) : FoldState :=
  match e.kind with
  | some t => handle pred env s e t
  | none => s

def step (env : Env) (s : FoldState) (e : Event) : FoldState := stepWith clampedPred env s e

def replay (log : List Event) : FoldState := log.foldl (step env) {}

/-- `fold`: the accumulated state after the trust gate's pass. -/
def fold (log : List Event) : RunState := applyTrustGate env (replay env log).st

end Step

theorem replay_append (env : Env) (log tail : List Event) :
    replay env (log ++ tail) = tail.foldl (step env) (replay env log) := by
  simp [replay]

theorem replay_snoc (env : Env) (log : List Event) (e : Event) :
    replay env (log ++ [e]) = step env (replay env log) e := by
  simp [replay]

def draftCreated (seq : Int) : Event where
  seq := seq
  type := "node_created"
  data :=
    [("node_id", .int 0), ("operator", .str "draft"), ("parent_ids", .arr []),
     ("idea", .obj [("operator", .str "draft")]), ("code", .str "print(1)")]

end LoopLab
