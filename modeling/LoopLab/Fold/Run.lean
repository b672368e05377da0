import LoopLab.Fold.Evidence

/-!
# The run itself

Start, retarget, approval, pause, resume and finish of a run, the operator's queued requests, and the journal rows
that cost or clear something.
-/

set_option autoImplicit false

namespace LoopLab
open Lib

def pickWord (env : Env) (v : Json) (words : List String) (other : String) : String :=
  let word := Py.lower (Py.strip (env.str v))
  if words.contains word then word else other

def onRunStarted (env : Env) (st : RunState) (e : Event) : RunState :=
  let d := e.data
  if st.runId.truthy then st else
  { st with
    runId := d.getD "run_id" (.str "")
    goal := d.getD "goal" (.str "")
    direction := pickWord env (d.getD "direction" (.str "min")) DIRECTIONS "min"
    trustGate := pickWord env (d.getD "trust_gate" (.str "audit")) ["audit", "gate", "block"] "audit"
    holdoutSelect := (d.get "holdout_select").truthy
    holdoutFraction := (d.get "holdout_fraction").finiteMetric
    splitSaltDisclosure := (d.get "split_salt").eqStr "disclosure"
    selectVerifierTiebreak := (d.get "select_verifier").truthy
    verifierCiTie := (d.get "verifier_ci_tie").truthy
    selectVerifierSamples :=
      (((d.getD "select_verifier_samples" (.int 3)).int?).filter fun i => 1 ≤ i && i ≤ 32).getD 3
    selectVerifierContract :=
      ((d.get "select_verifier_contract").str?.filter fun s => s.length ≤ 80).getD
        VERIFIER_SELECTION_CONTRACT }

def hostGraded (st : RunState) : Bool := st.hostGrading.any fun g => !g.isEmpty

/-- The goal that held before the operator's retargets, if it differs from the present one. -/
def restoredGoal (st : RunState) : Option String :=
  let retargets := st.objectiveHistory.reverse.takeWhile fun row => row.key.isSome
  ((retargets.filterMap fun row => row.previousGoal.str?).getLast?).filter fun g => !st.goal.eqStr g

/-- A retarget row's key: absent (back to the task's metric), or a usable name; else refused. -/
def retargetKey (d : Obj) : Option (Option String) :=
  match d.get "key" with
  | .null => some none
  | .str s => if Py.strip s ≠ "" && s.length ≤ 256 then some (some (Py.strip s)) else none
  | _ => none

def retargetDirectionOk (st : RunState) (d : Obj) : Bool :=
  match d.get "direction" with
  | .null => true
  | .str s => Py.lower (Py.strip s) = st.direction
  | _ => false

def retargetedNode (st : RunState) (n : Node) : Node :=
  { applyObjective st n with
    confirmedMean := none
    confirmedStd := none
    confirmedSeeds := none
    confirmedRuler := none
    verifierScore := none }

theorem applyObjective_id (st : RunState) (n : Node) : (applyObjective st n).id = n.id := by
  unfold applyObjective
  split <;> rfl

def retargetedRun (st : RunState) (e : Event) (key : Option String) : RunState :=
  let named := ((e.data.get "goal").str?.map fun s => Py.cut 4000 (Py.strip s)).filter (· ≠ "")
  let goal := if key.isNone && named.isNone then restoredGoal st else named
  let row : ObjectiveRow :=
    { seq := e.seq
      key := key
      previous := st.objectiveKey
      goal := goal
      previousGoal := if goal.isSome then st.goal else .null }
  { st with
    objectiveHistory := st.objectiveHistory ++ [row]
    objectiveKey := key
    goal := (goal.map Json.str).getD st.goal }

/-- Every node ranked by the run's present objective, with no confirmation of an older one. -/
def rerank (st : RunState) : RunState :=
  { st.mapNodes (retargetedNode st) (applyObjective_id st) with confirmSeedResults := Table.empty }

def onMetricRetarget (c : FoldCore) (e : Event) : FoldCore :=
  match retargetKey e.data with
  | none => c
  | some key =>
    if !retargetDirectionOk c.st e.data then c
    else if hostGraded c.st || !c.st.holdoutEvaluatedIds.isEmpty || key = c.st.objectiveKey then c
    else
      invalidateCompletionCertificates { c with st := rerank (retargetedRun c.st e key) }

def onHostGrading (st : RunState) (e : Event) : RunState := { st with hostGrading := some e.data }

/-- A row claiming a place in the log (`after_seq`) counts only where it stands right after it. -/
def adjacentTo (e : Event) : Bool :=
  !e.data.has "after_seq" ||
    (!(e.data.get "after_seq").isBool && (e.data.get "after_seq").toInt.any fun a => e.seq = a + 1)

def onApprovalRequested (st : RunState) (e : Event) : RunState :=
  let d := e.data
  if !adjacentTo e || st.approved then st else
  let subject := coerceNodeId d
  let current := subject.bind st.nodes.get
  if current.any fun n => st.aborted n.id || n.tombstoned then st
  else if subject.isSome && eventGeneration d ≠ .missing && !current.any (generationMatches · d) then
    st
  else
    let generation := current.map Node.attempt
    let samePending := st.awaitingApproval && st.approvalSubject = subject
      && st.approvalGeneration = generation
    { st with
      awaitingApproval := true
      approvalSubject := subject
      approvalGeneration := generation
      approvalRequestSeq := if samePending then st.approvalRequestSeq else some e.seq }

def approve (st : RunState) (id : Option Int) : RunState :=
  { st with
    approvedNodeId := id
    awaitingApproval := false
    approved := true
    approvalSubject := none
    approvalGeneration := none }

def onApprovalGranted (st : RunState) (e : Event) : RunState :=
  let d := e.data
  if (d.get "node_id").isNull then approve st st.approvalSubject else
  match st.nodeForEvent d with
  | none => st
  | some n =>
    if st.aborted n.id || n.tombstoned || !generationMatches n d then st else approve st (some n.id)

/-- The lifecycle an ablation is filed under, if it can be one of the parent's. -/
def ablationGeneration (current : Option Node) (d : Obj) : Option Nat :=
  match eventGeneration d with
  | .missing => some ((current.map Node.attempt).getD 0)
  | .invalid => none
  | .at g => if current.any (g ≤ ·.attempt) then some g else none

def recordAblation (st : RunState) (d : Obj) (pid : Int) (generation : Nat) : RunState :=
  let record := (d.set "parent_id" (.int pid)).setDefault "generation" (.int generation)
  { st with ablations := st.ablations ++ [record] }

def ablationId (d : Obj) : Option String := (d.get "ablation_id").str?.filter (· ≠ "")

def onAblate (c : FoldCore) (e : Event) : FoldCore :=
  let d := e.data
  match coerceNodeId d "parent_id" with
  | none => c
  | some pid =>
    match ablationGeneration (c.st.nodes.get pid) d with
    | none => c
    | some g =>
      let st := recordAblation c.st d pid g
      match ablationId d with
      | none => { c with st := chargeEvalSeconds st .node (d.get "eval_seconds") }
      | some id =>
        if c.ctx.chargedAblationIds.contains id then { c with st := st }
        else
          { st := chargeEvalSeconds st .node (d.get "eval_seconds")
            ctx := { c.ctx with chargedAblationIds := id :: c.ctx.chargedAblationIds } }

def controllable (st : RunState) (n : Node) (d : Obj) : Bool :=
  !n.tombstoned && !st.aborted n.id && controlGenerationMatches n d

/-- `_queue_forced_request`: the id is queued with its lifecycle, an unknown id without one. -/
def queueForcedRequest (st : RunState) (d : Obj) (requests : List Int)
    (generations : List (Int × Nat)) : List Int × List (Int × Nat) :=
  match coerceNodeId d with
  | none => (requests, generations)
  | some nid =>
    match st.nodes.get nid with
    | some n =>
      if controllable st n d then (requests ++ [nid], generations ++ [(nid, n.attempt)])
      else (requests, generations)
    | none =>
      if !st.aborted nid && eventGeneration d = .missing then (requests ++ [nid], generations)
      else (requests, generations)

def onForceConfirm (st : RunState) (e : Event) : RunState :=
  let q := queueForcedRequest st e.data st.confirmRequests st.confirmRequestGenerations
  { st with confirmRequests := q.1, confirmRequestGenerations := q.2 }

def onForceAblate (st : RunState) (e : Event) : RunState :=
  let q := queueForcedRequest st e.data st.ablateRequests st.ablateRequestGenerations
  { st with ablateRequests := q.1, ablateRequestGenerations := q.2 }

def onFork (st : RunState) (e : Event) : RunState :=
  let d := e.data
  match coerceNodeId d "from_node_id" with
  | none => st
  | some nid =>
    match st.nodes.get nid with
    | some n =>
      if !controllable st n d then st else
      let record := (d.set "from_node_id" (.int nid)).setDefault "generation" (.int n.attempt)
      { st with forkRequests := st.forkRequests ++ [record] }
    | none =>
      if !st.aborted nid && eventGeneration d = .missing then
        { st with forkRequests := st.forkRequests ++ [d] }
      else st

def acceptsPromotion (st : RunState) (d : Obj) : Bool :=
  match (coerceNodeId d).bind st.nodes.get with
  | some n => controllable st n d
  | none => !(coerceNodeId d).any st.aborted && eventGeneration d = .missing

def onPromote (st : RunState) (e : Event) : RunState :=
  if !acceptsPromotion st e.data then st else
  { st with
    promotions := st.promotions ++ [e.data]
    champion :=
      if (e.data.getD "alias" (.str "champion")).eqStr "champion" then coerceNodeId e.data
      else st.champion }

def onConfirmDone (st : RunState) (e : Event) : RunState :=
  match st.nodeForEvent e.data with
  | none => st
  | some n =>
    if st.aborted n.id || !generationMatches n e.data then st else
    { st with
      confirmedForced := if st.confirmedForced.contains n.id then st.confirmedForced
        else st.confirmedForced ++ [n.id]
      confirmedForcedGenerations :=
        if st.confirmedForcedGenerations.contains (n.id, n.attempt) then st.confirmedForcedGenerations
        else st.confirmedForcedGenerations ++ [(n.id, n.attempt)] }

/-- The pause is set, and remembered with its reason where it changed hands. -/
def setPause (st : RunState) (e : Event) (d : Obj) (drain : Bool) (owner : Option (Int × Nat)) :
    RunState :=
  let id := owner.map Prod.fst
  let generation := owner.map Prod.snd
  let same := st.paused && st.pauseNodeId = id && st.pauseGeneration = generation
  { st with
    paused := true
    pauseNodeId := id
    pauseGeneration := generation
    pauseEventSeq := if same then st.pauseEventSeq else some e.seq
    pauseReason := if same then st.pauseReason
      else (d.get "reason").str?.filter fun s => Py.strip s ≠ ""
    pauseDrainBuilds := if same then st.pauseDrainBuilds else drain }

/-- A node may pause the run while its build crash is the current verdict on it. -/
def maypause (st : RunState) (n : Node) (d : Obj) : Bool :=
  !st.aborted n.id && generationMatches n d && n.status = .failed
    && n.errorReason = "developer_crash"

def drains (d : Obj) : Bool := (d.get "drain_builds").isTrue && (d.get "node_id").isNull

def undrain (st : RunState) (d : Obj) : RunState :=
  if drains d then st else { st with pauseDrainBuilds := false }

def pauseWith (st : RunState) (e : Event) (d : Obj) : RunState :=
  if (d.get "node_id").isNull then setPause (undrain st d) e d (drains d) none
  else if st.paused && st.pauseNodeId.isNone then undrain st d
  else match st.nodeForEvent d with
    | none => undrain st d
    | some n =>
      if maypause st n d then setPause (undrain st d) e d (drains d) (some (n.id, n.attempt))
      else undrain st d

def onPause (st : RunState) (e : Event) : RunState := pauseWith st e e.data

def onRestart (st : RunState) (e : Event) : RunState :=
  let st := pauseWith st e []
  if e.seq ≤ st.lastResumeRequestSeq then st else
  { st with
    lastResumeRequestSeq := e.seq
    lastResumeRequestTs := e.ts
    lastResumeRequestMode := "resume" }

def onResumeOrRunReopened (c : FoldCore) (_ : Event) : FoldCore :=
  let disclosed := !c.st.holdoutEvaluatedIds.isEmpty
  let c :=
    if disclosed then invalidateCompletionCertificates
      { c with st := rotateSearchEpoch c.st c.st.holdoutEpochAware }
    else if c.st.finished then invalidateCompletionCertificates
      { c with st := rotateSearchEpoch c.st false }
    else c
  { c with st := reopenRun (clearPause c.st) }

def resumeAsked (st : RunState) (e : Event) : RunState :=
  if e.seq ≤ st.lastResumeRequestSeq then st else
  { st with
    lastResumeRequestSeq := e.seq
    lastResumeRequestTs := e.ts
    lastResumeRequestMode :=
      match (e.data.get "mode").str?.filter (["resume", "finalize"].contains ·) with
      | some mode => mode
      | none => if (e.data.get "launch_claim").truthy then st.lastResumeRequestMode else "resume" }

def onResumeRequested (st : RunState) (e : Event) : RunState :=
  if (e.data.get "launch_claim").truthy && st.lastResumeLaunchSeq < e.seq then
    { resumeAsked st e with lastResumeLaunchSeq := e.seq, lastResumeLaunchTs := e.ts }
  else resumeAsked st e

def servedAt (st : RunState) (e : Event) : RunState := { st with lastResumeServedSeq := e.seq }

def clearIfOwnerBoundary (st : RunState) (e : Event) : RunState :=
  if (e.data.get "engine_owner_boundary").isTrue then clearEvalActivityForNewOwner st else st

def onResumeServed (st : RunState) (e : Event) : RunState :=
  if e.seq ≤ st.lastResumeServedSeq then st
  else if st.finished && st.lastResumeRequestMode = "finalize" then
    { clearIfOwnerBoundary (servedAt st e) e with stopRequested := .null }
  else clearIfOwnerBoundary (servedAt st e) e

def GUARDED_ABORT_REASONS : List String := ["error", "budget_exhausted"]

def isGuardedAbort (env : Env) (reason : Json) : Bool :=
  GUARDED_ABORT_REASONS.contains (Py.lower (env.str (reason.orElse (.str ""))))

def onRunFinished (env : Env) (s : FoldState) (e : Event) : FoldState :=
  let d := e.data
  if !adjacentTo e then s else
  { s with
    st := { s.st with
      finished := true
      finalizationMarkerSeq := none
      lastFinishSeq := e.seq
      finalizedFinishSeq :=
        if (d.get "finalization_required").truthy then s.st.finalizedFinishSeq else e.seq
      stopReason := d.get "reason"
      stopDetail := (d.get "error").str?.filter fun t => Py.strip t ≠ "" }
    marks := if isGuardedAbort env (d.get "reason") then s.marks else {} }

def onFinalizationFinished (st : RunState) (e : Event) : RunState :=
  let raw := e.data.get "finish_seq"
  match raw.isBool, raw.toInt with
  | false, some finishSeq =>
    if st.finished && finishSeq = st.lastFinishSeq && st.finalizedFinishSeq ≠ finishSeq then
      { st with finalizedFinishSeq := finishSeq, finalizationMarkerSeq := some e.seq }
    else st
  | _, _ => st

def onRunAbort (st : RunState) (e : Event) : RunState :=
  { st with
    stopRequested := e.data.getD "reason" (.str "operator")
    lastStopRequestSeq := e.seq }

/-- The seconds an upstream execution reports, where it reports a usable number. -/
def upstreamSeconds (d : Obj) : Option Rat :=
  (d.get "execution").obj?.bind fun row => (row.get "seconds").finiteMetric.filter (0 ≤ ·)

def onUpstreamExecution (st : RunState) (e : Event) : RunState :=
  match upstreamSeconds e.data with
  | none => st
  | some secs =>
    { st with
      totalEvalSeconds := st.totalEvalSeconds + secs
      evalSecondsByKind := st.evalSecondsByKind.set .upstream
        ((st.evalSecondsByKind.get .upstream).getD 0 + secs) }

def onPolicyDecision (st : RunState) (e : Event) : RunState :=
  { st with
    policyScores := ((e.data.get "scores").obj?.getD []).foldl
      (fun scores (k, v) => match Py.parseInt k with
        | some i => scores.set i v
        | none => scores)
      Table.empty
    policyChosen := e.data.get "chosen"
    policyReason := (e.data.get "reason").orElse (.str "") }

def onHypothesisRanked (st : RunState) (e : Event) : RunState :=
  let d := e.data
  if eventGeneration d ≠ .missing &&
    !((st.nodeForEvent d).any fun n => !st.aborted n.id && generationMatches n d) then st
  else
    let order := (d.get "order").arr?.getD []
    { st with hypothesisRanking := some (d.set "order" (.arr order)) }

end LoopLab
