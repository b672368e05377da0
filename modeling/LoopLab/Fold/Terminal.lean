import LoopLab.Strip
import LoopLab.Fold.Epoch

/-!
# Building, creating and settling a node

The handlers that announce a build, materialise its node and close its lifecycle with a terminal
row, and those that rewrite a node while it is still pending.
-/

set_option autoImplicit false

namespace LoopLab
open Lib

/-- `_apply_objective`: the metric a node ranks by. -/
def applyObjective (st : RunState) (n : Node) : Node :=
  if n.kind = some "artifact" then { n with metric := .null } else
  { n with metric := match st.objectiveKey with
    | none => n.taskMetric
    | some key => .ofMetric (objectiveValue n.extraMetrics n.extraMetricsProvenance key
        n.extraMetricsDirection st.direction) }

def CARD_REPLAY_NODE_ID_MAX : Int := 2 ^ 31 - 1
def CARD_REPLAY_ID_MAX : Nat := 256

/-- `_card_replay_id`: one canonical card id. -/
def cardReplayId (env : Env) (v : Json) : Option String := do
  let s ← v.str?
  if CARD_REPLAY_ID_MAX < s.length then none else
  let bounded := Py.strip s
  if bounded ≠ "" && bounded.toList.all env.printable then some bounded else none

def onNodeBuilding (env : Env) (s : FoldState) (e : Event) : FoldState :=
  let d := e.data
  match coerceNodeId d with
  | none => s
  | some nid =>
    let current := s.st.nodes.get nid
    if s.st.aborted nid || current.any (·.tombstoned) then s.clearBuildMarker d nid
    else if current.any fun n => !generationMatches n d || n.status ≠ .pending then s
    else
      let marker : Marker :=
        { nodeId := nid
          operator := d.get "operator"
          parentIds := d.getD "parent_ids" (.arr [])
          started := e.ts
          cardId := cardReplayId env (d.get "card_id")
          generation := match eventGeneration d with
            | .at g => some g
            | _ => none }
      { s with marks := { building := some marker, buildings := s.marks.buildings.set nid marker } }

/-- The field types the node model insists on; a row it refuses creates nothing. -/
def nodeFieldsOk (d : Obj) : Bool :=
  let strs := fun (xs : List Json) => xs.all (·.str?.isSome)
  let optDict := fun (key : String) => (d.get key).isNull || (d.get key).obj?.isSome
  (d.getD "code" (.str "")).str?.isSome
    && (((d.getD "files" (.obj [])).orElse (.obj [])).obj?.any fun f => strs (f.map Prod.snd))
    && (((d.getD "deleted" (.arr [])).orElse (.arr [])).arr?.any strs)
    && (d.get "operator").str?.isSome
    && optDict "origin" && optDict "forked_from" && optDict "research_origin"

/-- The receipt of a cut as its creation row states it: the parent named, in the lifecycle the row was
built from, with a block of its program commented out and its files kept. -/
def simplificationReceipt (st : RunState) (d : Obj) (parentIds : List Int) :
    Option Simplification := do
  let raw ← (d.get "simplified").obj?
  match parentIds, raw.get "block", raw.get "generation", raw.get "parent_id" with
  | [parentId], .int block, .int generation, .int named =>
    let ablationId ← (raw.get "ablation_id").str?
    let parent := st.nodes.get parentId
    let builtFrom := match d.get "parent_generations" with
      | .obj recorded => Obj.get recorded (toString parentId)
      | _ => (parent.map fun (p : Node) => Json.int p.attempt).getD .null
    if !(d.get "operator").eqStr "simplify" || block < 0 || generation < 0 || named < 0
      || named ≠ parentId || !builtFrom.eqInt generation then none else
    let p ← parent
    let cut ← cutOf (p.code.str?.getD "") block.toNat
    if !(d.get "code").eqStr cut
      || !((d.get "files").orElse (.obj [])).pyEq (p.files.orElse (.obj [])) then none
    else some ⟨parentId, generation, block.toNat, Py.cut 64 ablationId⟩
  | _, _, _, _ => none

/-- The node a creation row describes, or nothing where building the model raises. -/
def newNode (env : Env) (st : RunState) (e : Event) (nid : Int) (generation : Nat) :
    Option Node := do
  let d := e.data
  let parentIds := ((d.get "parent_ids").arr?.getD []).filterMap Json.coerceInt
  if !env.simplifiable (parentIds.head?.bind st.nodes.get) d then none else
  let idea ← (d.lookup "idea").bind env.idea
  let parentGenerations ← parentIds.mapM fun pid => (st.nodes.get pid).map (pid, ·.attempt)
  if !nodeFieldsOk d then none else
  let speculative := (d.get "speculative").isTrue
  some
    { id := nid
      parentIds := parentIds
      parentGenerations := parentGenerations
      operator := d.get "operator"
      idea := idea
      code := d.getD "code" (.str "")
      files := (d.getD "files" (.obj [])).orElse (.obj [])
      deleted := (d.getD "deleted" (.arr [])).orElse (.arr [])
      kind := if (d.get "node_kind").eqStr "artifact" || idea.nodeKind.eqStr "artifact"
        then some "artifact" else none
      attempt := generation
      creationEventSeq := some e.seq
      simplified := simplificationReceipt st d parentIds
      speculative := speculative
      cardBuildGeneration :=
        if speculative && (d.get "card_build_generation").boundedInt 0 CARD_REPLAY_NODE_ID_MAX
        then (d.get "card_build_generation").int? else none
      evalStartBoundary := (d.get "eval_start_boundary").isTrue }

def creationGeneration (current : Option Node) (d : Obj) : Option Nat :=
  match eventGeneration d, current with
  | .missing, some n => some n.attempt
  | .missing, none => some 0
  | .invalid, _ => none
  | .at g, some n => if g = n.attempt then some g else none
  | .at g, none => some g

def materializesAbortedIntent (st : RunState) (d : Obj) (nid : Int) : Bool :=
  (d.get "materialize_aborted_intent").isTrue && !st.nodes.has nid && st.aborted nid
    && eventGeneration d == .missing

def acceptedCreation (env : Env) (st : RunState) (e : Event) (nid : Int) : Option Node := do
  let d := e.data
  let current := st.nodes.get nid
  if current.any (·.status ≠ .pending) || !parentGenerationMapMatches st d then none
  else if (st.aborted nid && !materializesAbortedIntent st d nid) || current.any (·.tombstoned) then
    none
  else newNode env st e nid (← creationGeneration current d)

/-- A refused creation still closes its build marker where a guard refused it. -/
def creationClearsMarker (st : RunState) (d : Obj) (nid : Int) : Bool :=
  !(st.nodes.get nid).any (·.status ≠ .pending)
    && (!parentGenerationMapMatches st d
      || (st.aborted nid && !materializesAbortedIntent st d nid)
      || (st.nodes.get nid).any (·.tombstoned))

def onNodeCreated (env : Env) (s : FoldState) (e : Event) : FoldState :=
  match coerceNodeId e.data with
  | none => s
  | some nid =>
    match acceptedCreation env s.st e nid with
    | none => if creationClearsMarker s.st e.data nid then s.clearBuildMarker e.data nid else s
    | some n =>
      let st := s.st.setNode n
      let c : FoldCore :=
        if s.st.nodes.has nid then { st := st, ctx := s.ctx }
        else invalidateCompletionCertificates
          { st := invalidateDisclosedHoldout st [nid], ctx := s.ctx }
      { s.clearBuildMarker e.data nid with toFoldCore := c }

def evaluatedNode (env : Env) (st : RunState) (e : Event) (n : Node) : Node :=
  let d := e.data
  let metric := Json.ofMetric (d.get "metric").finiteMetric
  let extraMetrics := normalizeExtraMetrics (d.get "extra_metrics")
  let violations := (d.getD "violations" (.arr [])).orElse (.arr [])
  applyObjective st
    { n with
      metric := metric
      selfMetric := (d.get "self_metric").finiteMetric
      status := .evaluated
      terminalEventSeq := some e.seq
      rerunStage := .null
      stdoutTail := d.getD "stdout_tail" (.str "")
      stderrTail := env.str ((d.getD "stderr_tail" (.str "")).orElse (.str ""))
      resourceCurve := normalizeResourceCurve (d.get "resource_curve")
      evalSeconds := d.get "eval_seconds"
      extraMetrics := extraMetrics
      extraMetricsOmitted := extraMetricsOmitted (d.get "extra_metrics_omitted")
      extraMetricsProvenance := normalizeExtraMetricChannels
        (channelEntries (d.get "extra_metrics_provenance")) (keysOf extraMetrics)
      extraMetricsDirection := normalizeExtraMetricDirections (d.get "extra_metrics_direction")
      violations := violations
      feasible := !violations.truthy
      metricProvenance := (d.get "metric_provenance").obj?
      activation := normalizeActivationRecord (d.get "activation")
      trials := ((d.getD "trials" (.arr [])).arr?.getD []).filterMap env.trial
      taskMetric := if st.objectiveKey.isSome then d.getD "task_metric" metric else metric }

def onNodeEvaluated (env : Env) (s : FoldState) (e : Event) : FoldState :=
  match s.st.nodeForEvent e.data with
  | none => s
  | some n =>
    if s.st.aborted n.id || !attemptMatches n e.data then
      { s with toFoldCore := chargeTerminalCost s.toFoldCore n e.data }
    else if n.status ≠ .pending then s
    else
      let n' := evaluatedNode env s.st e n
      let c := { s.toFoldCore with st := s.st.setNode n' }
      { s.clearBuildMarker e.data n.id with toFoldCore := chargeTerminalCost c n' e.data }

def failedNode (env : Env) (e : Event) (n : Node) : Node :=
  let d := e.data
  { n with
    status := .failed
    terminalEventSeq := some e.seq
    error := d.getD "error" (.str "")
    errorReason := env.str (d.getD "reason" (.str ""))
    triageRationale :=
      if (d.get "triage_rationale").truthy then env.str (d.get "triage_rationale")
      else n.triageRationale
    evalSeconds := d.get "eval_seconds"
    neverEvaluated := (d.get "never_evaluated").isTrue
    rerunFrom := .null
    rerunStage := .null
    failedStage := if (d.get "failed_stage").truthy then d.get "failed_stage" else n.failedStage }

def settleFailed (env : Env) (c : FoldCore) (e : Event) : FoldCore :=
  match c.st.nodeForEvent e.data with
  | none => c
  | some n =>
    if (c.st.aborted n.id && !(e.data.get "reason").eqStr "aborted") || !attemptMatches n e.data then
      chargeTerminalCost c n e.data
    else if n.status ≠ .pending then c
    else
      let n' := failedNode env e n
      let c := chargeTerminalCost { c with st := c.st.setNode n' } n' e.data
      { c with st := addCurrentFailure c.st n' e }

def onNodeFailed (env : Env) (s : FoldState) (e : Event) : FoldState :=
  let s := match coerceNodeId e.data with
    | some nid => s.clearBuildMarker e.data nid
    | none => s
  { s with toFoldCore := settleFailed env s.toFoldCore e }

def onNodeEvalStarted (st : RunState) (e : Event) : RunState :=
  match st.nodeForEvent e.data with
  | none => st
  | some n =>
    if !generationMatches n e.data then st else
    st.setNode
      { n with
        evalStarted := true
        evalActivityStarted := true
        evalStartedAt :=
          if n.evalActivityStarted then n.evalStartedAt
          else if 0 < e.ts then some e.ts else none }

def clearEvalActivityForNewOwner (st : RunState) : RunState :=
  st.mapNodes
    (fun n => if n.status = .pending then
      { n with evalActivityStarted := false, evalStartedAt := none } else n)
    fun n => by split <;> rfl

def REPAIR_LEDGER_MAX : Nat := 200
def REPAIR_LEDGER_MAX_PER_NODE : Nat := 20
def REPAIR_LEDGER_RATIONALE_CAP : Nat := 400
def SALVAGE_CAUSE_TRIAGE_ACTION : String := "salvage_cause_fix"

def hashable : Json → Bool
  | .arr _ | .obj _ => false
  | _ => true

def repairPaths (d : Obj) : List String :=
  let files := fun () => match d.get "files" with
    | .obj rows => (rows.map Prod.fst).mergeSort
    | _ => []
  match d.get "changed" with
  | .arr xs => (xs.mapM Json.str?).getD (files ())
  | _ => files ()

def recordRepairLedger (c : FoldCore) (d : Obj) : FoldCore :=
  match d.get "node_id" with
  | .int nodeId =>
    let attempt := d.get "attempt"
    let generation := d.get "generation"
    if !hashable attempt || !hashable generation then c
    else if c.ctx.repairLedgerKeys.any fun k =>
      k.1 == nodeId && k.2.1.pyEq attempt && k.2.2.pyEq generation then c
    else
      let keys := (nodeId, attempt, generation) :: c.ctx.repairLedgerKeys
      let count := (c.ctx.repairLedgerPerNode.get nodeId).getD 0
      if REPAIR_LEDGER_MAX ≤ c.st.repairLedger.length || REPAIR_LEDGER_MAX_PER_NODE ≤ count then
        let omitted := c.st.repairLedgerOmitted
        { st := { c.st with repairLedgerOmitted :=
            { rows := omitted.rows + 1
              nodes := omitted.nodes.set nodeId ((omitted.nodes.get nodeId).getD 0 + 1) } }
          ctx := { c.ctx with repairLedgerKeys := keys } }
      else
        let row : RepairRow :=
          { nodeId := nodeId
            attempt := attempt
            generation := generation
            reason := (d.get "reason").str?
            paths := (repairPaths d).take 40
            rationale := (d.get "rationale").str?.map (Py.cut REPAIR_LEDGER_RATIONALE_CAP) }
        { st := { c.st with repairLedger := c.st.repairLedger ++ [row] }
          ctx := { c.ctx with
            repairLedgerKeys := keys
            repairLedgerPerNode := c.ctx.repairLedgerPerNode.set nodeId (count + 1) } }
  | _ => c

def repairable (st : RunState) (n : Node) (d : Obj) : Bool :=
  !st.aborted n.id && !n.tombstoned && generationMatches n d && n.status = .pending

def onNodeOverlayRebased (st : RunState) (e : Event) : RunState :=
  match st.nodeForEvent e.data, e.data.get "files", e.data.get "deleted" with
  | some n, .obj files, .arr deleted =>
    if repairable st n e.data && files.all (·.2.str?.isSome) && deleted.all (·.str?.isSome) then
      st.setNode { n with files := .obj files, deleted := .arr deleted }
    else st
  | _, _, _ => st

def chargedRepairs (env : Env) (n : Node) (d : Obj) : Int :=
  if env.str ((d.get "triage_action").orElse (.str "")) = SALVAGE_CAUSE_TRIAGE_ACTION then n.repairs
  else match d.get "attempt" with
    | .int ordinal => if n.repairs < ordinal then ordinal else n.repairs + 1
    | _ => n.repairs + 1

/-- The node as a repair row leaves it; a row seen before charges nothing again. -/
def repairedNode (env : Env) (n : Node) (d : Obj) (seen : Bool) : Node :=
  { n with
    code := d.getD "code" n.code
    files := if (d.get "files").truthy then d.get "files" else n.files
    deleted := if (d.get "deleted").truthy then d.get "deleted" else n.deleted
    repairs := if seen then n.repairs else chargedRepairs env n d }

def onNodeRepaired (env : Env) (c : FoldCore) (e : Event) : FoldCore :=
  let d := e.data
  let c := recordRepairLedger c d
  match c.st.nodeForEvent d with
  | none => c
  | some n =>
    if !repairable c.st n d then c else
    let seen := c.ctx.chargedRepairSeqs.contains (n.id, e.seq)
    { st := c.st.setNode (repairedNode env n d seen)
      ctx := if seen then c.ctx else
        { c.ctx with chargedRepairSeqs := (n.id, e.seq) :: c.ctx.chargedRepairSeqs } }

end LoopLab
