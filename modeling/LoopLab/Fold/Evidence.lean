import LoopLab.Fold.Lifecycle

/-!
# Evidence about settled nodes

Confirmation seeds, noise seeds, holdout rows, verifier judgements, validators and trust signals: rows that arrive
after the terminal one.
-/

set_option autoImplicit false

namespace LoopLab
open Lib

def liveEvaluated (st : RunState) (n : Node) : Bool :=
  n.status = .evaluated && !st.aborted n.id && !n.tombstoned

/-- `st.<memo>.setdefault(nid, {})[seed] = metric` -/
def setSeed (memo : Dict Int (Dict Int (Option Rat))) (nid seed : Int) (metric : Option Rat) :
    Dict Int (Dict Int (Option Rat)) :=
  memo.set nid (((memo.get nid).getD Table.empty).set seed metric)

def seedOf (d : Obj) : Option Int := if d.has "seed" then (d.get "seed").coerceInt else none

def RETRYABLE_INFRASTRUCTURE : List String :=
  ["gpu_unavailable", "gpu_unpinnable", "artifact_unavailable"]

/-- A confirmation was really paid for: its lifecycle is over, or is the settled current one. -/
def confirmChargeable (st : RunState) (n : Node) (generation : Nat) : Bool :=
  generation < n.attempt ||
    (generation = n.attempt && (n.status = .evaluated || st.aborted n.id || n.tombstoned))

/-- The charge of a confirmation seed, once for each node, lifecycle and seed. -/
def chargeConfirm (c : FoldCore) (n : Node) (seed : Int) (d : Obj) : FoldCore :=
  let resolved := match eventGeneration d true with
    | .missing => some n.attempt
    | .invalid => none
    | .at g => some g
  match resolved with
  | none => c
  | some g =>
    if !confirmChargeable c.st n g || c.ctx.chargedConfirmSeeds.contains (n.id, g, seed) then c
    else
      { st := chargeEvalSeconds c.st .confirm (d.get "eval_seconds")
        ctx := { c.ctx with
          chargedConfirmSeeds := (n.id, g, seed) :: c.ctx.chargedConfirmSeeds } }

/-- A row stamped only by the older `attempt` alias of another lifecycle. -/
def foreignAttemptAlias (n : Node) (d : Obj) : Bool :=
  !d.has "generation" && d.has "attempt" && eventGeneration d true ≠ .at n.attempt

def onConfirmEval (c : FoldCore) (e : Event) : FoldCore :=
  let d := e.data
  match c.st.nodeForEvent d with
  | none => c
  | some n =>
    if foreignAttemptAlias n d then c else
    match seedOf d with
    | none => c
    | some seed =>
      let c := chargeConfirm c n seed d
      if !liveEvaluated c.st n || !generationMatches n d true then c
      else if (d.get "reason").oneOf RETRYABLE_INFRASTRUCTURE then c
      else if rowObjective (d.get "objective_key") ≠ c.st.objectiveKey then c
      else
        { c with st := { c.st with
          confirmSeedResults :=
            setSeed c.st.confirmSeedResults n.id seed (d.get "metric").finiteMetric } }

/-- `' '.join(rationale.split())[:250]` -/
def evidenceRationale (rationale : String) : String :=
  let words := (rationale.toList.splitBy fun a b => Py.isSpace a == Py.isSpace b).filter
    fun w => !w.all Py.isSpace
  String.ofList (((List.intersperse [' '] words).flatten).take 250)

/-- `verifier_evidence_snapshot` -/
def evidenceOf (direction : String) (n : Node) : Evidence :=
  let metric := n.metric.finiteMetric
  let robust := n.holdoutMetric <|> n.confirmedMean
  let gap := match metric, robust with
    | some m, some r => if direction = "max" then some (m - r) else some (r - m)
    | _, _ => none
  { direction := if DIRECTIONS.contains direction then direction else "min"
    nodeId := n.id
    generation := n.attempt
    rationale := evidenceRationale n.idea.rationale
    metric := metric
    confirmedMean := n.confirmedMean
    confirmedStd := n.confirmedStd
    confirmedSeeds := n.confirmedSeeds
    holdoutMetric := n.holdoutMetric
    generalizationGap := gap.filter Py.isFinite }

/-- `verifier_evidence_digest` -/
def evidenceDigest (env : Env) (st : RunState) (n : Node) : String :=
  env.digest (evidenceOf st.direction n)

/-- `verifier_raw_evidence_digest` -/
def rawEvidenceDigest (env : Env) (st : RunState) (n : Node) : String :=
  env.digest { evidenceOf st.direction n with
    confirmedMean := none
    confirmedStd := none
    confirmedSeeds := none
    holdoutMetric := none
    generalizationGap := none }

def dropStaleVerdict (env : Env) (st : RunState) (before after : Node) : Node :=
  if evidenceDigest env st after = evidenceDigest env st before then after
  else { after with verifierScore := none }

def confirmedNode (n : Node) (d : Obj) (mean std : Rat) (seeds : Int) : Node :=
  { n with
    confirmedMean := some mean
    confirmedStd := some std
    confirmedSeeds := some seeds
    confirmedRuler := (d.get "protocol_profile").str?.filter fun s =>
      0 < s.length && s.length ≤ 64 }

def onNodeConfirmed (env : Env) (st : RunState) (e : Event) : RunState :=
  let d := e.data
  match st.nodeForEvent d with
  | none => st
  | some n =>
    if rowObjective (d.get "objective_key") ≠ st.objectiveKey then st
    else if !liveEvaluated st n || !generationMatches n d true then st
    else match (d.get "mean").finiteMetric, (d.get "std").finiteMetric, d.get "seeds" with
      | some mean, some std, .int seeds =>
        if std < 0 || seeds ≤ 0 then st
        else st.setNode (dropStaleVerdict env st n (confirmedNode n d mean std seeds))
      | _, _, _ => st

/-- The lifecycle a noise row is filed under: its integer stamp, or else the current lifecycle. -/
def noiseGeneration (current : Option Node) (d : Obj) : Int :=
  match d.get "generation" with
  | .int i => i
  | _ => (current.map fun n => (n.attempt : Int)).getD 0

def onEvalNoiseSeed (c : FoldCore) (e : Event) : FoldCore :=
  let d := e.data
  match coerceNodeId d, seedOf d with
  | some nid, some seed =>
    let current := c.st.nodes.get nid
    let generation := noiseGeneration current d
    let key := (nid, generation, seed)
    let c :=
      if c.ctx.chargedNoiseSeeds.contains key then c
      else
        { st := chargeEvalSeconds c.st .noise (d.get "eval_seconds")
          ctx := { c.ctx with chargedNoiseSeeds := key :: c.ctx.chargedNoiseSeeds } }
    match current with
    | none => c
    | some n =>
      if generation ≠ n.attempt then c
      else
        { c with st := { c.st with
          evalNoiseSeedResults :=
            setSeed c.st.evalNoiseSeedResults nid seed (d.get "metric").finiteMetric } }
  | _, _ => c

def chargeHoldout (c : FoldCore) (nid : Int) (d : Obj) : FoldCore :=
  let key := (nid, (d.get "generation").coerceInt, (d.get "search_epoch").coerceInt)
  if !d.has "eval_seconds" || c.ctx.chargedHoldoutKeys.contains key then c
  else
    { st := chargeEvalSeconds c.st .holdout (d.get "eval_seconds")
      ctx := { c.ctx with chargedHoldoutKeys := key :: c.ctx.chargedHoldoutKeys } }

def discloseHoldout (st : RunState) (nid : Int) (d : Obj) : RunState :=
  { st with
    holdoutEpochAware := st.holdoutEpochAware || d.has "search_epoch"
    holdoutEvaluatedIds :=
      if st.holdoutEvaluatedIds.contains nid then st.holdoutEvaluatedIds
      else st.holdoutEvaluatedIds ++ [nid]
    holdoutPartitionDisclosed := st.holdoutPartitionDisclosed ||
      !(d.getD "partition_disclosed" (.bool true)).isFalse }

def onHoldoutEvaluated (env : Env) (c : FoldCore) (e : Event) : FoldCore :=
  let d := e.data
  match coerceNodeId d with
  | none => c
  | some nid =>
    let c := chargeHoldout c nid d
    match c.st.nodes.get nid with
    | none => c
    | some n =>
      if c.st.objectiveKey.isSome || !liveEvaluated c.st n || !generationMatches n d true then c
      else if !(d.getD "search_epoch" (.int c.st.searchEpoch)).eqInt c.st.searchEpoch then c
      else
        let st := discloseHoldout c.st nid d
        match (d.get "metric").finiteMetric with
        | none => { c with st := st }
        | some metric =>
          let n' := dropStaleVerdict env st n { n with holdoutMetric := some metric }
          { c with st := st.setNode n' }

def onAgentValidated (st : RunState) (e : Event) : RunState :=
  let d := e.data
  match st.nodeForEvent d with
  | none => st
  | some n =>
    if st.aborted n.id || !generationMatches n d then st else
    let report : AgentReport :=
      { ok := d.get "ok"
        checks := d.getD "checks" (.arr [])
        fellBack := d.get "fell_back"
        attempts := d.get "attempts"
        shippedOk := d.get "shipped_ok" }
    st.setNode { n with agentReport := some report }

def onProxyScored (st : RunState) (e : Event) : RunState :=
  let d := e.data
  match coerceNodeId d with
  | none => st
  | some nid =>
    let current := st.nodes.get nid
    if current.any fun n => st.aborted n.id then st
    else if eventGeneration d ≠ .missing && !current.any (generationMatches · d) then st
    else
      { st with
        proxyScores := if (d.get "score").isNull then st.proxyScores
          else st.proxyScores.set nid (d.get "score")
        proxySkipped :=
          if (d.get "skipped").truthy && !st.proxySkipped.contains nid then st.proxySkipped ++ [nid]
          else st.proxySkipped }

def unitScore (v : Json) : Option Rat := v.finiteMetric.filter fun q => 0 ≤ q && q ≤ 1

def stampedFor (n : Node) (d : Obj) : Bool :=
  eventGeneration d ≠ .missing && generationMatches n d

def onNodeValueEstimated (st : RunState) (e : Event) : RunState :=
  match st.nodeForEvent e.data with
  | none => st
  | some n =>
    if st.aborted n.id || n.tombstoned || !stampedFor n e.data then st
    else match unitScore (e.data.get "value") with
      | some q => st.setNode { n with valuePrior := some q }
      | none => st

/-- A verifier score, kept beside its raw form where the two see the same evidence. -/
def judgedNode (env : Env) (st : RunState) (n : Node) (score : Rat) : Node :=
  let raw := rawEvidenceDigest env st n
  { n with
    verifierScore := some score
    verifierRawScore := if raw = evidenceDigest env st n then some (raw, score)
      else n.verifierRawScore }

/-- The evidence a single judgement claims to have seen is what the node shows. -/
def evidenceMatches (env : Env) (st : RunState) (n : Node) (digest : Json) : Bool :=
  match digest with
  | .null => n.confirmedMean.isNone && n.holdoutMetric.isNone
  | .str s => s = evidenceDigest env st n
  | _ => false

def onNodeVerified (env : Env) (st : RunState) (e : Event) : RunState :=
  let d := e.data
  match st.nodeForEvent d with
  | none => st
  | some n =>
    if !liveEvaluated st n || !stampedFor n d then st
    else if !evidenceMatches env st n (d.get "evidence_digest") then st
    else match unitScore (d.get "score") with
      | some q => st.setNode (judgedNode env st n q)
      | none => st

def groupMember (env : Env) (st : RunState) (requested : Int) (row : Json) :
    Option (Int × Rat) := do
  let d ← row.obj?
  let n ← st.nodeForEvent d
  if !liveEvaluated st n || !stampedFor n d then none else
  let digest ← (d.get "evidence_digest").str?
  if digest ≠ evidenceDigest env st n then none else
  let score ← unitScore (d.get "score")
  let samples ← (d.get "n_samples").int?
  if samples < 1 || requested < samples || samples * 2 ≤ requested then none else
  let agreement ← (d.get "agreement").finiteMetric
  if agreement ≤ 1 / 2 || 1 < agreement then none else
  let method ← (d.get "method").str?
  if 80 < method.length then none else
  some (n.id, score)

def sameIds (xs ys : List Int) : Bool := xs.all (ys.contains ·) && ys.all (xs.contains ·)

def judge (env : Env) (st : RunState) (member : Int × Rat) : RunState :=
  match st.nodes.get member.1 with
  | some n => st.setNode (judgedNode env st n member.2)
  | none => st

def onVerifierGroupScored (env : Env) (st : RunState) (e : Event) : RunState :=
  let d := e.data
  let contract := d.get "contract"
  if !st.selectVerifierTiebreak || (d.get "v").isBool || !(d.get "v").eqInt 1
    || !contract.eqStr VERIFIER_SELECTION_CONTRACT || !contract.eqStr st.selectVerifierContract
  then st else
  match d.get "requested_samples", d.get "members" with
  | .int requested, .arr members =>
    if requested ≠ st.selectVerifierSamples || members.length < 2 || 8 < members.length then st
    else match members.mapM (groupMember env st requested) with
      | none => st
      | some staged =>
        let ids := staged.map Prod.fst
        if !decide ids.Nodup || !(env.tieGroups st).any (sameIds ids) then st
        else staged.foldl (judge env) st
  | _, _ => st

def isHardSignal (sig : String) : Bool :=
  let trimmed := Py.strip sig
  sig = "critic:hardcoded_metric" ||
    (trimmed ≠ "" &&
      (["critic:", "perfect_metric", "protected_audit_unavailable", "suspicious_output"].all
        fun p => !p.toList.isPrefixOf trimmed.toList))

def hardFlaggedIds (env : Env) (st : RunState) : List Int :=
  st.rewardHacks.filterMap fun rh => do
    let n ← rh.nodeId.bind st.nodes.get
    if rh.generation.any (· ≠ n.attempt) then none
    else if rh.signals.any fun s => isHardSignal (env.str (s.getD "signal" (.str ""))) then some n.id
    else none

def activationGatedIds (st : RunState) : List Int :=
  (st.nodes.rows.filter fun n =>
    n.status = .evaluated && activationUnverified n.activation
      && n.activation.any fun a => (a.get "gate").eqStr "gate").map Node.id

def flaggedNodeIds (env : Env) (st : RunState) : List Int :=
  (if ["gate", "block"].contains st.trustGate then hardFlaggedIds env st else [])
    ++ activationGatedIds st

def onTrustGateChanged (env : Env) (st : RunState) (e : Event) : RunState :=
  let gate := Py.lower (Py.strip (env.str (e.data.getD "trust_gate" (.str ""))))
  if ["audit", "gate", "block"].contains gate then { st with trustGate := gate } else st

def onRewardHackSuspected (st : RunState) (e : Event) : RunState :=
  let d := e.data
  let current := st.nodeForEvent d
  if current.any fun n => st.aborted n.id then st
  else if eventGeneration d ≠ .missing && !current.any (generationMatches · d) then st
  else
    { st with rewardHacks := st.rewardHacks ++
      [{ nodeId := coerceNodeId d
         signals := (((d.get "signals").arr?.getD []).filterMap Json.obj?).take 64
         evidenceVersion := d.getD "evidence_version" (.int 0)
         codeDigest := d.get "code_digest"
         generation := current.map Node.attempt }] }

/-- `_generation_map_matches`: a certificate names exactly the live nodes in their lifecycles. -/
def generationMapMatches (st : RunState) (d : Obj) : Bool :=
  match d.lookup "generations" with
  | none => (st.nodeForEvent d).all fun n =>
      !n.tombstoned && !st.aborted n.id && generationMatches n d
  | some (.obj rows) =>
    let live := fun (row : String × Json) =>
      match Py.parseInt row.1, stampOf row.2 with
      | some nid, .at g => (st.nodes.get nid).any fun n =>
          !st.aborted nid && !n.tombstoned && n.attempt == g
      | _, _ => false
    let seen := rows.filterMap fun row => Py.parseInt row.1
    let active := (st.nodes.rows.filter fun n => !st.aborted n.id && !n.tombstoned).map Node.id
    rows.all live && ((d.get "node_id").isNull || (coerceNodeId d).any (seen.contains ·))
      && sameIds seen active
  | some _ => false

def onBestConfirmed (c : FoldCore) (e : Event) : FoldCore :=
  let d := e.data
  if d.has "significant" && !(d.get "significant").isBool then c
  else if d.has "search_epoch" && !(d.get "search_epoch").eqInt c.st.searchEpoch then c
  else if rowObjective (d.get "objective_key") ≠ c.st.objectiveKey then c
  else if !generationMapMatches c.st d then c
  else
    { st := { c.st with confirmedDone := true }
      ctx := if d.has "node_id" then
        { c.ctx with
          bestConfirmed := coerceNodeId d
          bestConfirmedSignificant := (d.getD "significant" (.bool true)).isTrue }
        else c.ctx }

def gatedNode (env : Env) (st : RunState) (n : Node) : Node :=
  if (flaggedNodeIds env st).contains n.id && (hardFlaggedIds env st).contains n.id then
    { n with feasible := false }
  else n

theorem gatedNode_id (env : Env) (st : RunState) (n : Node) : (gatedNode env st n).id = n.id := by
  unfold gatedNode
  split <;> rfl

def blockFlagged (env : Env) (st : RunState) : RunState :=
  if st.trustGate = "block" then st.mapNodes (gatedNode env st) (gatedNode_id env st) else st

/-- `_apply_trust_gate`: the pass over the finished fold; a blocking gate makes hard-flagged nodes
infeasible. -/
def applyTrustGate (env : Env) (st : RunState) : RunState :=
  { blockFlagged env st with breedExcluded := flaggedNodeIds env st }

end LoopLab
