import LoopLab.State

/-!
# Stamps and epochs

Lifecycle stamps and build markers, then accounting, request queues and search epochs.
-/

set_option autoImplicit false

/-!
## Lifecycle stamps and build markers

An event may name the lifecycle of the node it is about. The stamp arrives as any JSON value; an absent stamp binds
every lifecycle, a malformed one binds none.
-/

namespace LoopLab
open Lib

inductive Stamp where
  | missing
  | invalid
  | at (generation : Nat)
  deriving DecidableEq, Repr

def stampOf (raw : Json) : Stamp :=
  match raw.coerceInt with
  | some i => if 0 ≤ i then .at i.toNat else .invalid
  | none => .invalid

def eventGeneration (d : Obj) (legacyAttempt : Bool := false) : Stamp :=
  if d.has "generation" then stampOf (d.get "generation")
  else if legacyAttempt && d.has "attempt" then stampOf (d.get "attempt")
  else .missing

def eventGenerationBinds (d : Obj) (generation : Nat) (legacyAttempt : Bool := false) : Bool :=
  match eventGeneration d legacyAttempt with
  | .missing => true
  | .invalid => false
  | .at g => g == generation

def generationMatches (n : Node) (d : Obj) (legacyAttempt : Bool := false) : Bool :=
  eventGenerationBinds d n.attempt legacyAttempt

def controlGenerationMatches (n : Node) (d : Obj) : Bool :=
  match eventGeneration d with
  | .missing => true
  | .invalid => false
  | .at g => g == n.attempt

/-- The lifecycle a terminal row is about: an unstamped row is about the first one. -/
def terminalGeneration (d : Obj) : Option Nat :=
  match eventGeneration d true with
  | .missing => some 0
  | .invalid => none
  | .at g => some g

def attemptMatches (n : Node) (d : Obj) : Bool := terminalGeneration d == some n.attempt

namespace RunState

def nodeForEvent (st : RunState) (d : Obj) : Option Node := (coerceNodeId d).bind st.nodes.get

theorem id_of_nodeForEvent {st : RunState} {d : Obj} {n : Node} (h : st.nodeForEvent d = some n) :
    coerceNodeId d = some n.id ∧ st.nodes.get n.id = some n := by
  obtain ⟨id, hid, hn⟩ := Option.bind_eq_some_iff.mp h
  have hkey := Table.key_of_get hn
  subst hkey
  exact ⟨hid, hn⟩

end RunState

/-- `_marker_matches_event` -/
def Marker.matchesEvent (m : Marker) (d : Obj) (nid : Int) : Bool :=
  m.nodeId == nid &&
    match m.generation with
    | none => true
    | some g => eventGeneration d true == .at g

/-- `_clear_build_marker` -/
def Marks.clear (marks : Marks) (d : Obj) (nid : Int) : Marks where
  building := marks.building.filter fun m => !m.matchesEvent d nid
  buildings :=
    if (marks.buildings.get nid).any (·.matchesEvent d nid) then marks.buildings.erase nid
    else marks.buildings

def FoldState.clearBuildMarker (s : FoldState) (d : Obj) (nid : Int) : FoldState :=
  { s with marks := s.marks.clear d nid }

/-- `_parent_generation_map_matches`: the parents a build names are those it was built from, each
alive in the lifecycle it recorded. -/
def parentGenerationMapMatches (st : RunState) (d : Obj) : Bool :=
  match (d.get "parent_ids").orElse (.arr []) with
  | .arr rawParents =>
    match rawParents.mapM Json.coerceInt with
    | none => false
    | some expected =>
      match d.lookup "parent_generations" with
      | none => expected.all fun pid =>
          (st.nodes.get pid).any fun p => !st.aborted pid && !p.tombstoned
      | some (.obj rows) =>
        let live := fun (row : String × Json) =>
          match Py.parseInt row.1, stampOf row.2 with
          | some pid, .at g => (st.nodes.get pid).any fun p =>
              !p.tombstoned && p.attempt == g && !st.aborted pid
          | _, _ => false
        let seen := rows.filterMap fun row => Py.parseInt row.1
        rows.all live && seen.all (expected.contains ·) && expected.all (seen.contains ·)
      | some _ => false
  | _ => false

end LoopLab

/-!
## Accounting, request queues and search epochs

The operations several handlers share: charging evaluation seconds, counting current failures,
dropping a node's queued requests, and rotating the search epoch, which re-queues the incumbents
whose measurements belong to the partition that just moved.
-/

namespace LoopLab
open Lib

def chargeEvalSeconds (st : RunState) (kind : CostKind) (raw : Json) : RunState :=
  let secs := nonnegSeconds raw
  { st with
    totalEvalSeconds := st.totalEvalSeconds + secs
    evalSecondsByKind :=
      if secs = 0 then st.evalSecondsByKind
      else st.evalSecondsByKind.set kind ((st.evalSecondsByKind.get kind).getD 0 + secs) }

/-- `_charge_terminal_cost`: once for each lifecycle up to the current one. -/
def chargeTerminalCost (c : FoldCore) (n : Node) (d : Obj) : FoldCore :=
  match terminalGeneration d with
  | none => c
  | some generation =>
    if n.attempt < generation then c
    else if c.ctx.chargedTerminalGenerations.contains (n.id, generation) then c
    else
      { st := chargeEvalSeconds c.st .node (d.get "eval_seconds")
        ctx := { c.ctx with
          chargedTerminalGenerations := (n.id, generation) :: c.ctx.chargedTerminalGenerations } }

def BENIGN_TERMINAL_REASONS : List String :=
  ["aborted", "card_dropped", "proxy_skipped", "superseded", "frozen"]

def benignReason (reason : String) : Bool :=
  BENIGN_TERMINAL_REASONS.contains (Py.lower (Py.strip reason))

/-- `search_outcome`: `some true` is a failure, `some false` an evaluated node. -/
def searchOutcome (st : RunState) (n : Node) : Option Bool :=
  if n.tombstoned || st.aborted n.id then none
  else match n.status with
    | .evaluated => some false
    | .failed => if benignReason n.errorReason then none else some true
    | .pending => none

def countsAsCurrentFailure (st : RunState) (n : Node) : Bool := searchOutcome st n == some true

/-- `_add_current_failure`: the spike level is the count in threes, and rising stamps the row. -/
def addCurrentFailure (st : RunState) (n : Node) (e : Event) : RunState :=
  if !countsAsCurrentFailure st n then st else
  let count := st.currentFailureCount + 1
  let level := count / 3
  { st with
    currentFailureCount := count
    failureSpikeSeq := if st.failureSpikeLevel < level then some e.seq else st.failureSpikeSeq
    failureSpikeLevel := level }

def clampedPred (count : Int) : Int := max 0 (count - 1)

/-- `_remove_current_failure`, with the decrement as a parameter. -/
def removeCurrentFailure (pred : Int → Int) (st : RunState) (n : Node) : RunState :=
  if !countsAsCurrentFailure st n then st else
  { st with
    currentFailureCount := pred st.currentFailureCount
    failureSpikeLevel := pred st.currentFailureCount / 3 }

def purgeNodeRequests (st : RunState) (drop : List Int) : RunState :=
  { st with
    confirmRequests := st.confirmRequests.filter (!drop.contains ·)
    confirmRequestGenerations := st.confirmRequestGenerations.filter fun r => !drop.contains r.1
    ablateRequests := st.ablateRequests.filter (!drop.contains ·)
    ablateRequestGenerations := st.ablateRequestGenerations.filter fun r => !drop.contains r.1 }

/-- The node a rotation hands back to the queue: a new lifecycle without the old measurement. -/
def requeuedNode (n : Node) : Node :=
  { n with
    attempt := n.attempt + 1
    status := .pending
    terminalEventSeq := none
    metric := .null
    taskMetric := .null
    error := .str ""
    errorReason := ""
    triageRationale := ""
    stdoutTail := .str ""
    stderrTail := ""
    resourceCurve := none
    evalSeconds := .null
    neverEvaluated := false
    evalStarted := false
    evalActivityStarted := false
    evalStartedAt := none
    extraMetrics := Table.empty
    extraMetricsProvenance := Table.empty
    extraMetricsDirection := Table.empty
    extraMetricsBackfill := []
    extraMetricsOmitted := []
    violations := .arr []
    feasible := true
    metricProvenance := none
    trials := []
    confirmedMean := none
    confirmedStd := none
    confirmedSeeds := none
    confirmedRuler := none
    holdoutMetric := none
    verifierScore := none
    valuePrior := none
    stages := []
    failedStage := .null
    repairs := 0
    rerunFrom := .null
    rerunStage := .null }

def partitionBound (st : RunState) (fresh : List Int) (n : Node) : Bool :=
  !(fresh.contains n.id || st.aborted n.id || n.tombstoned || n.status ≠ .evaluated)

def eraseAll {α : Type} (d : Dict Int α) (ids : List Int) : Dict Int α := ids.foldl Table.erase d

def requeueNodes (st : RunState) (fresh : List Int) : RunState :=
  st.mapNodes (fun n => if partitionBound st fresh n then requeuedNode n else n)
    fun n => by split <;> rfl

/-- The run-level memos of re-queued nodes, and the policy's choice among them, are dropped. -/
def forgetRequeued (st : RunState) (requeued : List Int) : RunState :=
  { purgeNodeRequests st requeued with
    confirmSeedResults := eraseAll st.confirmSeedResults requeued
    evalNoiseSeedResults := eraseAll st.evalNoiseSeedResults requeued
    proxyScores := eraseAll st.proxyScores requeued
    proxySkipped := st.proxySkipped.filter (!requeued.contains ·)
    policyScores := Table.empty
    policyChosen := .null
    policyReason := .str "" }

def requeuePartitionBoundResults (st : RunState) (fresh : List Int) : RunState :=
  let requeued := (st.nodes.rows.filter (partitionBound st fresh)).map Node.id
  if requeued.isEmpty then requeueNodes st fresh
  else forgetRequeued (requeueNodes st fresh) requeued

def hostSplit (st : RunState) : Bool :=
  match st.hostGrading with
  | none | some [] => false
  | some _ => st.holdoutFraction.all fun q => 0 < q

def rotationMovesRows (st : RunState) : Bool :=
  st.holdoutPartitionDisclosed || (!st.splitSaltDisclosure && hostSplit st)

/-- The disclosed holdout evidence of a live candidate lapses with the epoch. -/
def forgetHoldout (st : RunState) (n : Node) : Node :=
  if n.tombstoned || st.aborted n.id then n else
  { n with
    verifierScore := if n.holdoutMetric.isSome then none else n.verifierScore
    holdoutMetric := none }

def lapseHoldout (st : RunState) : RunState :=
  st.mapNodes (forgetHoldout st) fun n => by unfold forgetHoldout; split <;> rfl

def nextEpoch (st : RunState) : RunState :=
  { st with
    searchEpoch := st.searchEpoch + 1
    splitEpoch := if st.holdoutPartitionDisclosed then st.splitEpoch + 1 else st.splitEpoch
    holdoutEvaluatedIds := []
    holdoutEpochAware := false
    holdoutPartitionDisclosed := false }

def rotateSearchEpoch (st : RunState) (requeue : Bool) (fresh : List Int := []) : RunState :=
  if requeue && rotationMovesRows st then
    requeuePartitionBoundResults (lapseHoldout (nextEpoch st)) fresh
  else lapseHoldout (nextEpoch st)

def invalidateDisclosedHoldout (st : RunState) (fresh : List Int := []) : RunState :=
  if st.holdoutEvaluatedIds.isEmpty then st
  else rotateSearchEpoch st st.holdoutEpochAware fresh

def clearApproval (st : RunState) : RunState :=
  { st with
    approved := false
    awaitingApproval := false
    approvalSubject := none
    approvalGeneration := none
    approvedNodeId := none }

def invalidateCompletionCertificates (c : FoldCore) : FoldCore where
  st := clearApproval { c.st with confirmedDone := false }
  ctx := { c.ctx with bestConfirmed := none }

def clearPause (st : RunState) : RunState :=
  { st with
    paused := false
    pauseNodeId := none
    pauseGeneration := none
    pauseReason := none }

def reopenRun (st : RunState) : RunState :=
  { st with
    finished := false
    stopReason := .null
    stopDetail := none
    stopRequested := .null }

end LoopLab
