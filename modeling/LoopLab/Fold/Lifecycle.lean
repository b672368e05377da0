import LoopLab.Fold.Terminal

/-!
# Backfills, stages and the end of a lifecycle

Measurements recovered after the fact, the stage ledger, and the three control events that end a lifecycle: a reset
opens the next one, a tombstone deletes the node, an abort takes it out of the search.
-/

set_option autoImplicit false

namespace LoopLab
open Lib

def declaredChannels (metrics : Dict String Rat) : Dict String String :=
  normalizeExtraMetricChannels ((keysOf metrics).map (·, EXTRA_METRIC_DECLARED))

/-- `marker.get(key) or {}` -/
def Obj.sub (d : Obj) (key : String) : Obj := ((d.get key).orElse (.obj [])).obj?.getD []

def Obj.restrict (d : Obj) (keys : List String) : Obj := d.filter fun kv => keys.contains kv.1

def Obj.update (d other : Obj) : Obj := other.foldl (fun d kv => d.set kv.1 kv.2) d

def backfilledAt (marker d : Obj) (key : String) : Json :=
  if (marker.get "backfilled_at").isNull then d.get key else marker.get "backfilled_at"

def backfillBesideImports (n : Node) (found : Dict String Rat) (d : Obj) : Node :=
  let marker := n.extraMetricsBackfill
  let room := EXTRA_METRICS_MAX_ITEMS - found.rows.length
  let others := (n.extraMetrics.rows.filter fun kv => !found.has kv.1).mergeSort
    fun a b => a.1 ≤ b.1
  let imported := others.take room
  let names := imported.map Prod.fst
  let metrics := dictOf (found.rows ++ imported)
  { n with
    extraMetrics := metrics
    extraMetricsProvenance := declaredChannels metrics
    extraMetricsBackfill := normalizeExtraMetricBackfill
      [("backfilled", .bool true), ("backfilled_at", backfilledAt marker d "read_at"),
       ("precision_decimals", .obj (((marker.sub "precision_decimals").restrict names).update
         ((d.get "precision_decimals").obj?.getD []))),
       ("keys", .arr ((keysOf metrics).mergeSort.map .str)),
       ("sources", .obj ((marker.sub "sources").restrict names))] }

def backfilledNode (n : Node) (found : Dict String Rat) (d : Obj) : Node :=
  { n with
    extraMetrics := found
    extraMetricsProvenance := declaredChannels found
    extraMetricsBackfill := normalizeExtraMetricBackfill
      [("backfilled", .bool true), ("backfilled_at", d.get "read_at"),
       ("precision_decimals", d.get "precision_decimals")] }

/-- A node whose task metric has been measured in the lifecycle the row names. -/
def measuredNode (st : RunState) (d : Obj) : Option Node :=
  (st.nodeForEvent d).filter fun n => !n.taskMetric.isNull && generationMatches n d

def onScoreMetricsBackfilled (st : RunState) (e : Event) : RunState :=
  let d := e.data
  match measuredNode st d, d.get "extra_metrics" with
  | some n, .obj (kv :: rest) =>
    let importsOnly := extraMetricsAreImportsOnly n.extraMetrics n.extraMetricsBackfill
    let found := normalizeExtraMetrics (.obj (kv :: rest))
    if importsOnly then st.setNode (applyObjective st (backfillBesideImports n found d))
    else if !n.extraMetrics.rows.isEmpty then st
    else st.setNode (applyObjective st (backfilledNode n found d))
  | _, _ => st

def importedNode (n : Node) (added : List (String × Rat)) (d : Obj) : Node :=
  let marker := n.extraMetricsBackfill
  let names := added.map Prod.fst
  let known := match (marker.get "backfilled").truthy, marker.get "keys" with
    | true, .arr keys => keys.filterMap Json.str?
    | true, _ => keysOf n.extraMetrics
    | false, keys => (keys.arr?.getD []).filterMap Json.str?
  let decimals := ((d.get "precision_decimals").obj?.getD []).restrict names
  let sources := match d.get "source" with
    | .str s => if Py.strip s = "" then [] else names.map fun k => (k, Json.str s)
    | _ => []
  let metrics := added.foldl (fun m kv => m.set kv.1 kv.2) n.extraMetrics
  { n with
    extraMetrics := metrics
    extraMetricsProvenance := normalizeExtraMetricChannels
      (names.foldl (fun m k => m.set k EXTRA_METRIC_DECLARED) n.extraMetricsProvenance).rows
      (keysOf metrics)
    extraMetricsBackfill := normalizeExtraMetricBackfill
      [("backfilled", .bool true), ("backfilled_at", backfilledAt marker d "imported_at"),
       ("precision_decimals", .obj ((marker.sub "precision_decimals").update decimals)),
       ("keys", .arr ((Py.sortedSet (known ++ names)).map .str)),
       ("sources", .obj ((marker.sub "sources").update sources))] }

def onExtraMetricsImported (st : RunState) (e : Event) : RunState :=
  match measuredNode st e.data with
  | none => st
  | some n =>
    let added := planExtraMetricsImport n.extraMetrics (e.data.get "extra_metrics")
    if added.isEmpty then st else st.setNode (applyObjective st (importedNode n added e.data))

/-- The record a backfill of applied parameters stamps, if the row carries one. -/
def stampedParams (env : Env) (d : Obj) : Option Obj :=
  let unrecoverable := Py.strip (env.str ((d.get "unrecoverable").orElse (.str "")))
  match d.get "applied_params" with
  | .obj (kv :: rest) =>
    let stamped := (Obj.set "backfilled" (.bool true) (kv :: rest)).set "backfilled_at"
      (d.get "read_at")
    some (stamped.set "backfilled_from"
      (.str (Py.cut 64 (env.str ((d.get "workdir_digest").orElse (.str ""))))))
  | _ =>
    if unrecoverable = "" then none
    else some [("backfilled", .bool true), ("backfilled_at", d.get "read_at"),
      ("unrecoverable", .str (Py.cut 200 unrecoverable))]

def onAppliedParamsBackfilled (env : Env) (st : RunState) (e : Event) : RunState :=
  match st.nodeForEvent e.data, stampedParams env e.data with
  | some n, some stamped =>
    match n.metricProvenance with
    | none => st
    | some prov =>
      if !generationMatches n e.data || !(prov.get "applied_params").isNull then st
      else st.setNode { n with metricProvenance := some (prov.set "applied_params" (.obj stamped)) }
  | _, _ => st

def stageRow (n : Node) (d : Obj) : StageRow :=
  { name := d.get "name"
    status := d.get "status"
    exitCode := d.get "exit_code"
    seconds := d.get "seconds"
    repairs := n.repairs }

/-- Stages keep one row a name; a reuse of a stage that really ran only refreshes its epoch. -/
def putStage (rec : StageRow) : List StageRow → List StageRow
  | [] => [rec]
  | s :: rest =>
    if s.name.pyEq rec.name then
      if rec.status.eqStr "reused" && !(s.status.isNull || s.status.eqStr "reused") then
        { s with repairs := max s.repairs rec.repairs } :: rest
      else { rec with repairs := max rec.repairs s.repairs } :: rest
    else s :: putStage rec rest

/-- A stage row is accepted for a node that is not aborted, in the lifecycle it names. -/
def acceptsStage (st : RunState) (n : Node) (d : Obj) : Bool :=
  !st.aborted n.id && generationMatches n d

def stagedNode (n : Node) (e : Event) : Node :=
  let rec_ := stageRow n e.data
  { n with
    stageAttempts := n.stageAttempts ++
      [{ toStageRow := rec_, generation := n.attempt, seq := e.seq }]
    stages := putStage rec_ n.stages }

def onStageFinished (st : RunState) (e : Event) : RunState :=
  match st.nodeForEvent e.data with
  | none => st
  | some n => if acceptsStage st n e.data then st.setNode (stagedNode n e) else st

section Control
variable (pred : Int → Int)

/-- One id of a tombstone row: the node is deleted if it is there and not deleted yet. -/
def tombstoneOne (acc : RunState × List Int) (raw : Json) : RunState × List Int :=
  match raw.coerceInt.bind acc.1.nodes.get with
  | none => acc
  | some n =>
    if n.tombstoned then acc else
    let st := removeCurrentFailure pred acc.1 n
    (st.setNode { n with tombstoned := true, rerunFrom := .null, rerunStage := .null },
      acc.2 ++ [n.id])

def among (id : Option Int) (ids : List Int) : Bool := id.any (ids.contains ·)

/-- What the run held of deleted nodes: their requests, titles, approvals and pause. -/
def dropAffected (st : RunState) (affected : List Int) : RunState :=
  let st := purgeNodeRequests st affected
  let st := { st with champion := st.champion.filter (!affected.contains ·) }
  let st := if among st.approvalSubject affected then
    { st with awaitingApproval := false, approvalSubject := none, approvalGeneration := none }
    else st
  let st := if among st.approvedNodeId affected then
    { st with approved := false, approvedNodeId := none } else st
  if among st.pauseNodeId affected then clearPause st else st

def onNodeTombstoned (s : FoldState) (e : Event) : FoldState :=
  let (st, affected) := ((e.data.get "node_ids").arr?.getD []).foldl (tombstoneOne pred) (s.st, [])
  if affected.isEmpty then s else
  let st := dropAffected st affected
  let marks : Marks :=
    { building := s.marks.building.filter fun m => !affected.contains m.nodeId
      buildings := eraseAll s.marks.buildings affected }
  if st.finished then
    { st := st
      ctx := { s.ctx with bestConfirmed := s.ctx.bestConfirmed.filter (!affected.contains ·) }
      marks := marks }
  else
    let c := invalidateCompletionCertificates { st := st, ctx := s.ctx }
    { st := invalidateDisclosedHoldout c.st, ctx := c.ctx, marks := marks }

def resetNode (n : Node) (stage : Json) (clearStages : Bool) : Node :=
  let rebuild := stage.oneOf ["implement", "propose"]
  { n with
    attempt := n.attempt + 1
    repairs := 0
    status := .pending
    terminalEventSeq := none
    metric := .null
    taskMetric := .null
    error := .str ""
    errorReason := ""
    triageRationale := ""
    evalSeconds := .null
    neverEvaluated := false
    evalStarted := false
    evalActivityStarted := false
    evalStartedAt := none
    stdoutTail := .str ""
    stderrTail := ""
    resourceCurve := none
    extraMetrics := Table.empty
    extraMetricsProvenance := Table.empty
    extraMetricsDirection := Table.empty
    extraMetricsBackfill := []
    extraMetricsOmitted := []
    violations := .arr []
    feasible := true
    metricProvenance := none
    trials := []
    confirmedMean := none
    confirmedStd := none
    confirmedSeeds := none
    confirmedRuler := none
    agentReport := none
    failedStage := .null
    holdoutMetric := none
    verifierScore := none
    valuePrior := none
    code := if rebuild then .str "" else n.code
    files := if rebuild then .obj [] else n.files
    deleted := if rebuild then .arr [] else n.deleted
    stages :=
      if rebuild || clearStages then []
      else (n.stages.takeWhile fun s => !s.name.pyEq stage).map fun s => { s with repairs := 0 }
    rerunFrom := if rebuild then stage else .null
    rerunStage := if rebuild || clearStages then .null else stage }

def forgetLifecycle (st : RunState) (n : Node) : RunState :=
  let st := purgeNodeRequests st [n.id]
  { st with
    confirmSeedResults := st.confirmSeedResults.erase n.id
    evalNoiseSeedResults := st.evalNoiseSeedResults.erase n.id
    abortedNodes := st.abortedNodes.filter (· ≠ n.id)
    proxyScores := st.proxyScores.erase n.id
    proxySkipped := st.proxySkipped.filter (· ≠ n.id)
    champion := st.champion.filter (· ≠ n.id)
    hypothesisRanking := st.hypothesisRanking.filter fun ranked =>
      !((ranked.get "node_id").eqInt n.id && eventGeneration ranked == .at n.attempt)
    holdoutEvaluatedIds := st.holdoutEvaluatedIds.erase n.id }

def unpauseFor (st : RunState) (n : Node) : RunState :=
  if st.pauseNodeId = some n.id && st.pauseGeneration = some n.attempt then clearPause st else st

/-- The run as the end of a node's lifecycle leaves it, the node itself apart. -/
def closeLifecycle (st : RunState) (n : Node) : RunState :=
  forgetLifecycle (unpauseFor (removeCurrentFailure pred st n) n) n

/-- A disclosed holdout partition rotates with a stamped reset, a finished run with any. -/
def rotateAfterReset (before st : RunState) (d : Obj) (nid : Int) : RunState :=
  if !before.holdoutEvaluatedIds.isEmpty && eventGeneration d ≠ .missing then
    rotateSearchEpoch st true [nid]
  else if before.finished then rotateSearchEpoch st false
  else st

def acceptsReset (n : Node) (d : Obj) : Bool := !n.tombstoned && controlGenerationMatches n d

/-- The node a reset row opens: stages are dropped where the rotation moves their rows. -/
def reopenedNode (st : RunState) (n : Node) (d : Obj) : Node :=
  resetNode n (d.getD "from_stage" (.str "eval"))
    (!st.holdoutEvaluatedIds.isEmpty && rotationMovesRows st)

def onNodeReset (s : FoldState) (e : Event) : FoldState :=
  let d := e.data
  match s.st.nodeForEvent d with
  | none => s
  | some n =>
    if !acceptsReset n d then s else
    let st := (closeLifecycle pred s.st n).setNode (reopenedNode s.st n d)
    let c := invalidateCompletionCertificates
      { st := rotateAfterReset s.st st d n.id, ctx := s.ctx }
    { s.clearBuildMarker d n.id with st := reopenRun c.st, ctx := c.ctx }

def stopRerun (st : RunState) (nid : Int) : RunState :=
  match st.nodes.get nid with
  | some n => st.setNode { n with rerunFrom := .null, rerunStage := .null }
  | none => st

def unpauseNode (st : RunState) (nid : Int) : RunState :=
  if st.pauseNodeId = some nid then clearPause st else st

def disapproveNode (st : RunState) (nid : Int) : RunState :=
  if st.approvalSubject = some nid || st.approvedNodeId = some nid then clearApproval st else st

def dethroneNode (st : RunState) (nid : Int) : RunState :=
  { st with champion := st.champion.filter (· ≠ nid) }

def dropAborted (st : RunState) (nid : Int) : RunState :=
  dethroneNode (disapproveNode (purgeNodeRequests (unpauseNode st nid) [nid]) nid) nid

def abortNode (st : RunState) (nid : Int) : RunState :=
  let st := match st.nodes.get nid with
    | some n => removeCurrentFailure pred st n
    | none => st
  { st with abortedNodes := st.abortedNodes ++ [nid] }

/-- An abort is accepted once, for a node in the lifecycle named or for an unknown id unstamped. -/
def acceptsAbort (st : RunState) (d : Obj) (nid : Int) : Bool :=
  !st.aborted nid &&
    match st.nodes.get nid with
    | some n => controlGenerationMatches n d
    | none => eventGeneration d == .missing

def onNodeAbort (s : FoldState) (e : Event) : FoldState :=
  match coerceNodeId e.data with
  | none => s
  | some nid =>
    if !acceptsAbort s.st e.data nid then s else
    let st := dropAborted (stopRerun (abortNode pred s.st nid) nid) nid
    if st.finished then
      { s.clearBuildMarker e.data nid with
        st := st
        ctx := { s.ctx with bestConfirmed := s.ctx.bestConfirmed.filter (· ≠ nid) } }
    else
      let c := invalidateCompletionCertificates { st := st, ctx := s.ctx }
      { s.clearBuildMarker e.data nid with st := invalidateDisclosedHoldout c.st, ctx := c.ctx }

end Control

end LoopLab
