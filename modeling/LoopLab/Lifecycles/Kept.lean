import LoopLab.Lifecycles.Renewals

/-!
# What every handler keeps of the nodes

A fact about the measured fields of a node holds along a fold where the few steps that write those fields keep it:
a new lifecycle, a terminal, a change of the objective, and the rows that bring metrics after the evaluation.
-/

set_option autoImplicit false

namespace LoopLab
open Lib Board

def Every (P : Node → Prop) (st : RunState) : Prop := ∀ n ∈ st.nodes.rows, P n

section Rules
variable {P : Node → Prop} {st st' : RunState}

theorem Every.of_nodes (h : Every P st) (heq : st'.nodes = st.nodes) : Every P st' := by
  unfold Every
  rw [heq]
  exact h

theorem Every.of_get (h : Every P st) {id : Int} {n : Node} (hn : st.nodes.get id = some n) : P n :=
  h n (Table.mem_of_get hn)

theorem Every.of_named (h : Every P st) {d : Obj} {n : Node} (hn : st.nodeForEvent d = some n) :
    P n :=
  h.of_get (RunState.id_of_nodeForEvent hn).2

theorem Every.setNode (h : Every P st) {n : Node} (hn : P n) : Every P (st.setNode n) := by
  intro m hm
  have hget := Table.get_of_mem hm
  unfold RunState.setNode at hget
  rw [Table.get_put] at hget
  split at hget
  · cases hget
    exact hn
  · exact h.of_get hget

theorem Every.mapNodes (h : Every P st) {f : Node → Node} {hf : ∀ n, (f n).id = n.id}
    (hP : ∀ n, P n → P (f n)) : Every P (st.mapNodes f hf) := by
  intro m hm
  obtain ⟨n, hn, rfl⟩ := List.mem_map.mp hm
  exact hP n (h n hn)

end Rules

structure Kept (P : Node → Prop) : Prop where
  congr : ∀ {n m : Node}, P n → m.metric = n.metric → m.taskMetric = n.taskMetric →
    m.status = n.status → m.extraMetrics = n.extraMetrics →
    m.extraMetricsProvenance = n.extraMetricsProvenance →
    m.extraMetricsBackfill = n.extraMetricsBackfill → P m
  fresh : ∀ {n : Node}, n.status = .pending → n.metric = .null → n.taskMetric = .null →
    n.extraMetrics = Table.empty → n.extraMetricsProvenance = Table.empty →
    n.extraMetricsBackfill = [] → P n
  objective : ∀ (st : RunState) {n : Node}, P n → P (applyObjective st n)
  failed : ∀ (env : Env) (e : Event) {n : Node}, P n → n.status = .pending → P (failedNode env e n)
  backfilled : ∀ (d : Obj) (found : Dict String Rat) {n : Node}, P n → n.taskMetric.isNull = false →
    P (backfilledNode n found d)
  beside : ∀ (d : Obj) (found : Dict String Rat) {n : Node}, P n → n.taskMetric.isNull = false →
    extraMetricsAreImportsOnly n.extraMetrics n.extraMetricsBackfill = true →
    P (backfillBesideImports n found d)
  imported : ∀ (d : Obj) (added : List (String × Rat)) {n : Node}, P n →
    n.taskMetric.isNull = false → added ≠ [] → P (importedNode n added d)

def Settles (P : Node → Prop) (env : Env) (st : RunState) (e : Event) : Prop :=
  ∀ n, st.nodeForEvent e.data = some n → chargesOnly st n e.data = false → n.status = .pending →
    P (evaluatedNode env st e n)

section Kept
variable {P : Node → Prop} (hP : Kept P)
include hP

theorem kept_newNode {env : Env} {st : RunState} {e : Event} {nid : Int} {generation : Nat}
    {n : Node} (h : newNode env st e nid generation = some n) : P n := by
  unfold newNode at h
  dsimp only at h
  split at h
  · cases h
  · simp only [Option.bind_eq_bind, Option.bind_eq_some_iff] at h
    obtain ⟨idea, -, parents, -, h⟩ := h
    split at h
    · cases h
    · cases h
      exact hP.fresh rfl rfl rfl rfl rfl rfl

theorem kept_acceptedCreation {env : Env} {st : RunState} {e : Event} {nid : Int} {n : Node}
    (h : acceptedCreation env st e nid = some n) : P n := by
  unfold acceptedCreation at h
  dsimp only at h
  split at h
  · cases h
  · split at h
    · cases h
    · obtain ⟨g, -, h⟩ := Option.bind_eq_some_iff.mp h
      exact kept_newNode hP h

theorem kept_dropStale {env : Env} {st : RunState} {before after : Node} (h : P after) :
    P (dropStaleVerdict env st before after) := by
  unfold dropStaleVerdict
  split
  · exact h
  · exact hP.congr h rfl rfl rfl rfl rfl rfl

theorem kept_retargeted {st : RunState} {n : Node} (h : P n) : P (retargetedNode st n) :=
  hP.congr (hP.objective st h) rfl rfl rfl rfl rfl rfl

/-! ## Rotations -/

theorem kept_lapseHoldout {st : RunState} (h : Every P st) : Every P (lapseHoldout st) := by
  unfold lapseHoldout
  apply h.mapNodes
  intro n hn
  unfold forgetHoldout
  split
  · exact hn
  · exact hP.congr hn rfl rfl rfl rfl rfl rfl

theorem kept_requeue {st : RunState} (fresh : List Int) (h : Every P st) :
    Every P (requeuePartitionBoundResults st fresh) := by
  have hmap : Every P (requeueNodes st fresh) := by
    unfold requeueNodes
    apply h.mapNodes
    intro n hn
    split
    · exact hP.fresh rfl rfl rfl rfl rfl rfl
    · exact hn
  exact hmap.of_nodes (nodes_requeue st fresh)

theorem kept_rotate {st : RunState} (requeue : Bool) (fresh : List Int) (h : Every P st) :
    Every P (rotateSearchEpoch st requeue fresh) := by
  have hlapse : Every P (lapseHoldout (nextEpoch st)) := kept_lapseHoldout hP (h.of_nodes rfl)
  unfold rotateSearchEpoch
  split
  · exact kept_requeue hP fresh hlapse
  · exact hlapse

theorem kept_invalidateHoldout {st : RunState} (fresh : List Int) (h : Every P st) :
    Every P (invalidateDisclosedHoldout st fresh) := by
  unfold invalidateDisclosedHoldout
  split
  · exact h
  · exact kept_rotate hP _ fresh h

omit hP in
theorem kept_certificates {c : FoldCore} (h : Every P c.st) :
    Every P (invalidateCompletionCertificates c).st := h.of_nodes (nodes_invalidateCertificates c)

theorem kept_reopenSearch {c : FoldCore} (h : Every P c.st) :
    Every P (invalidateDisclosedHoldout (invalidateCompletionCertificates c).st) :=
  kept_invalidateHoldout hP [] (kept_certificates h)

/-! ## Creation and terminals -/

section Handlers
variable {pred : Int → Int} {env : Env}

omit hP in
theorem kept_nodeBuilding {s : FoldState} (e : Event) (h : Every P s.st) :
    Every P (onNodeBuilding env s e).st := by
  unfold onNodeBuilding
  dsimp only
  split
  · exact h
  · split
    · exact h
    · split <;> exact h

theorem kept_nodeCreated {s : FoldState} (e : Event) (h : Every P s.st) :
    Every P (onNodeCreated env s e).st := by
  unfold onNodeCreated
  split
  · exact h
  · rename_i nid _
    split
    · split <;> exact h
    · rename_i n hn
      have hset : Every P (s.st.setNode n) := h.setNode (kept_acceptedCreation hP hn)
      dsimp only
      split
      · exact hset
      · exact kept_certificates (kept_invalidateHoldout hP [nid] hset)

omit hP in
theorem kept_nodeEvaluated {s : FoldState} {e : Event} (hok : Settles P env s.st e)
    (h : Every P s.st) : Every P (onNodeEvaluated env s e).st := by
  unfold onNodeEvaluated
  split
  · exact h
  · rename_i n hn
    split
    · exact h.of_nodes (nodes_chargeTerminal _ _ _)
    · rename_i honly
      split
      · exact h
      · rename_i hst
        have hset : Every P (s.st.setNode (evaluatedNode env s.st e n)) :=
          h.setNode (hok n hn (Bool.eq_false_iff.mpr honly) (not_not.mp hst))
        exact hset.of_nodes (nodes_chargeTerminal _ _ _)

theorem kept_nodeFailed {s : FoldState} (e : Event) (h : Every P s.st) :
    Every P (onNodeFailed env s e).st := by
  have hsettle : Every P (settleFailed env s.toFoldCore e).st := by
    unfold settleFailed
    split
    · exact h
    · rename_i n hn
      split
      · exact h.of_nodes (nodes_chargeTerminal _ _ _)
      · split
        · exact h
        · rename_i hst
          have hset : Every P (s.st.setNode (failedNode env e n)) :=
            h.setNode (hP.failed env e (h.of_named hn) (not_not.mp hst))
          apply hset.of_nodes
          exact (nodes_addCurrentFailure _ _ _).1.trans (nodes_chargeTerminal _ _ _)
  rw [core_onNodeFailed]
  exact hsettle

theorem kept_nodeEvalStarted {st : RunState} (e : Event) (h : Every P st) :
    Every P (onNodeEvalStarted st e) := by
  unfold onNodeEvalStarted
  split
  · exact h
  · rename_i n hn
    split
    · exact h
    · exact h.setNode (hP.congr (h.of_named hn) rfl rfl rfl rfl rfl rfl)

omit hP in
theorem nodes_recordRepairLedger (c : FoldCore) (d : Obj) :
    (recordRepairLedger c d).st.nodes = c.st.nodes := by
  unfold recordRepairLedger
  dsimp only
  split
  · split
    · rfl
    · split
      · rfl
      · split <;> rfl
  · rfl

theorem kept_nodeRepaired {c : FoldCore} (e : Event) (h : Every P c.st) :
    Every P (onNodeRepaired env c e).st := by
  have hrec : Every P (recordRepairLedger c e.data).st :=
    h.of_nodes (nodes_recordRepairLedger c e.data)
  unfold onNodeRepaired
  dsimp only
  split
  · exact hrec
  · rename_i n hn
    split
    · exact hrec
    · exact hrec.setNode (hP.congr (hrec.of_named hn) rfl rfl rfl rfl rfl rfl)

theorem kept_overlayRebased {st : RunState} (e : Event) (h : Every P st) :
    Every P (onNodeOverlayRebased st e) := by
  unfold onNodeOverlayRebased
  split
  · rename_i n files deleted hn _ _
    split
    · exact h.setNode (hP.congr (h.of_named hn) rfl rfl rfl rfl rfl rfl)
    · exact h
  · exact h

/-! ## Backfills and stages -/

omit hP in
theorem measuredNode_named {st : RunState} {d : Obj} {n : Node} (h : measuredNode st d = some n) :
    st.nodeForEvent d = some n := (Option.filter_eq_some_iff.mp h).1

omit hP in
theorem measuredNode_task {st : RunState} {d : Obj} {n : Node} (h : measuredNode st d = some n) :
    n.taskMetric.isNull = false := by
  have hguard := (Option.filter_eq_some_iff.mp h).2
  rw [Bool.and_eq_true, Bool.not_eq_true'] at hguard
  exact hguard.1

theorem kept_scoreMetricsBackfilled {st : RunState} (e : Event) (h : Every P st) :
    Every P (onScoreMetricsBackfilled st e) := by
  unfold onScoreMetricsBackfilled
  dsimp only
  split
  · rename_i n kv rest hn _
    have hnode := h.of_named (measuredNode_named hn)
    have htask := measuredNode_task hn
    split
    · rename_i honly
      exact h.setNode (hP.objective _ (hP.beside e.data _ hnode htask honly))
    · split
      · exact h
      · exact h.setNode (hP.objective _ (hP.backfilled e.data _ hnode htask))
  · exact h

theorem kept_extraMetricsImported {st : RunState} (e : Event) (h : Every P st) :
    Every P (onExtraMetricsImported st e) := by
  unfold onExtraMetricsImported
  split
  · exact h
  · rename_i n hn
    dsimp only
    split
    · exact h
    · rename_i hadded
      have hnode := h.of_named (measuredNode_named hn)
      apply h.setNode
      apply hP.objective
      apply hP.imported e.data _ hnode (measuredNode_task hn)
      intro hnil
      rw [hnil] at hadded
      exact hadded rfl

theorem kept_appliedParamsBackfilled {st : RunState} (e : Event) (h : Every P st) :
    Every P (onAppliedParamsBackfilled env st e) := by
  unfold onAppliedParamsBackfilled
  split
  · rename_i n stamped hn _
    split
    · exact h
    · split
      · exact h
      · exact h.setNode (hP.congr (h.of_named hn) rfl rfl rfl rfl rfl rfl)
  · exact h

theorem kept_stageFinished {st : RunState} (e : Event) (h : Every P st) :
    Every P (onStageFinished st e) := by
  unfold onStageFinished
  split
  · exact h
  · rename_i n hn
    split
    · exact h.setNode (hP.congr (h.of_named hn) rfl rfl rfl rfl rfl rfl)
    · exact h

/-! ## Control events -/

variable (pred) in
theorem kept_tombstones (raws : List Json) (acc : RunState × List Int)
    (h : Every P acc.1) : Every P (raws.foldl (tombstoneOne pred) acc).1 := by
  induction raws generalizing acc with
  | nil => exact h
  | cons raw raws ih =>
    apply ih
    unfold tombstoneOne
    split
    · exact h
    · rename_i n hn
      split
      · exact h
      · obtain ⟨id, -, hget⟩ := Option.bind_eq_some_iff.mp hn
        have hfail : Every P (removeCurrentFailure pred acc.1 n) :=
          h.of_nodes (nodes_removeCurrentFailure acc.1 n)
        exact hfail.setNode (hP.congr (h.of_get hget) rfl rfl rfl rfl rfl rfl)

theorem kept_nodeTombstoned {s : FoldState} (e : Event) (h : Every P s.st) :
    Every P (onNodeTombstoned pred s e).st := by
  unfold onNodeTombstoned
  have hdel := kept_tombstones hP pred ((e.data.get "node_ids").arr?.getD []) (s.st, []) h
  generalize ((e.data.get "node_ids").arr?.getD []).foldl (tombstoneOne pred) (s.st, []) = acc
    at hdel ⊢
  obtain ⟨st, affected⟩ := acc
  dsimp only at hdel ⊢
  have hdrop : Every P (dropAffected st affected) := hdel.of_nodes (nodes_dropAffected st affected)
  split
  · exact h
  · split
    · exact hdrop
    · exact kept_reopenSearch hP (c := { st := dropAffected st affected, ctx := s.ctx }) hdrop

theorem kept_nodeReset {s : FoldState} (e : Event) (h : Every P s.st) :
    Every P (onNodeReset pred s e).st := by
  unfold onNodeReset
  dsimp only
  split
  · exact h
  · rename_i n hn
    split
    · exact h
    · have hclose : Every P (closeLifecycle pred s.st n) :=
        h.of_nodes (nodes_closeLifecycle s.st n)
      have hset : Every P ((closeLifecycle pred s.st n).setNode (reopenedNode s.st n e.data)) :=
        hclose.setNode (hP.fresh rfl rfl rfl rfl rfl rfl)
      have hrot : Every P (rotateAfterReset s.st
          ((closeLifecycle pred s.st n).setNode (reopenedNode s.st n e.data)) e.data n.id) := by
        unfold rotateAfterReset
        split
        · exact kept_rotate hP true [n.id] hset
        · split
          · exact kept_rotate hP false [] hset
          · exact hset
      exact hrot

theorem kept_nodeAbort {s : FoldState} (e : Event) (h : Every P s.st) :
    Every P (onNodeAbort pred s e).st := by
  unfold onNodeAbort
  split
  · exact h
  · rename_i nid _
    split
    · exact h
    · have habort : Every P (abortNode pred s.st nid) := h.of_nodes (nodes_abortNode s.st nid)
      have hstop : Every P (stopRerun (abortNode pred s.st nid) nid) := by
        unfold stopRerun
        split
        · rename_i n hn
          exact habort.setNode (hP.congr (habort.of_get hn) rfl rfl rfl rfl rfl rfl)
        · exact habort
      have hdrop := hstop.of_nodes (nodes_dropAborted (stopRerun (abortNode pred s.st nid) nid) nid)
      dsimp only
      split
      · exact hdrop
      · exact kept_reopenSearch hP
          (c := { st := dropAborted (stopRerun (abortNode pred s.st nid) nid) nid, ctx := s.ctx })
          hdrop

/-! ## Evidence -/

omit hP in
theorem nodes_chargeConfirm (c : FoldCore) (n : Node) (seed : Int) (d : Obj) :
    (chargeConfirm c n seed d).st.nodes = c.st.nodes := by
  unfold chargeConfirm
  dsimp only
  split
  · rfl
  · split <;> rfl

omit hP in
theorem nodes_confirmEval (c : FoldCore) (e : Event) :
    (onConfirmEval c e).st.nodes = c.st.nodes := by
  unfold onConfirmEval
  dsimp only
  split
  · rfl
  · rename_i n _
    split
    · rfl
    · split
      · rfl
      · rename_i seed _
        have hcharge := nodes_chargeConfirm c n seed e.data
        split
        · exact hcharge
        · split
          · exact hcharge
          · split <;> exact hcharge

omit hP in
theorem nodes_evalNoiseSeed (c : FoldCore) (e : Event) :
    (onEvalNoiseSeed c e).st.nodes = c.st.nodes := by
  unfold onEvalNoiseSeed
  dsimp only
  split
  · split
    · split <;> rfl
    · split
      · split <;> rfl
      · split <;> rfl
  · rfl

theorem kept_nodeConfirmed {st : RunState} (e : Event) (h : Every P st) :
    Every P (onNodeConfirmed env st e) := by
  unfold onNodeConfirmed
  dsimp only
  split
  · exact h
  · rename_i n hn
    split
    · exact h
    · split
      · exact h
      · split
        · split
          · exact h
          · apply h.setNode
            exact kept_dropStale hP (hP.congr (h.of_named hn) rfl rfl rfl rfl rfl rfl)
        · exact h

theorem kept_holdoutEvaluated {c : FoldCore} (e : Event) (h : Every P c.st) :
    Every P (onHoldoutEvaluated env c e).st := by
  unfold onHoldoutEvaluated
  dsimp only
  split
  · exact h
  · rename_i nid _
    have hcharge : Every P (chargeHoldout c nid e.data).st :=
      h.of_nodes (nodes_chargeHoldout c nid e.data)
    split
    · exact hcharge
    · rename_i n hn
      have hnode := hcharge.of_get hn
      split
      · exact hcharge
      · split
        · exact hcharge
        · have hdisclose : Every P (discloseHoldout (chargeHoldout c nid e.data).st nid e.data) :=
            hcharge.of_nodes rfl
          split
          · exact hdisclose
          · rename_i metric _
            apply hdisclose.setNode
            exact kept_dropStale hP (hP.congr hnode rfl rfl rfl rfl rfl rfl)

theorem kept_agentValidated {st : RunState} (e : Event) (h : Every P st) :
    Every P (onAgentValidated st e) := by
  unfold onAgentValidated
  dsimp only
  split
  · exact h
  · rename_i n hn
    split
    · exact h
    · exact h.setNode (hP.congr (h.of_named hn) rfl rfl rfl rfl rfl rfl)

theorem kept_nodeValueEstimated {st : RunState} (e : Event) (h : Every P st) :
    Every P (onNodeValueEstimated st e) := by
  unfold onNodeValueEstimated
  split
  · exact h
  · rename_i n hn
    split
    · exact h
    · split
      · exact h.setNode (hP.congr (h.of_named hn) rfl rfl rfl rfl rfl rfl)
      · exact h

theorem kept_nodeVerified {st : RunState} (e : Event) (h : Every P st) :
    Every P (onNodeVerified env st e) := by
  unfold onNodeVerified
  dsimp only
  split
  · exact h
  · rename_i n hn
    split
    · exact h
    · split
      · exact h
      · split
        · exact h.setNode (hP.congr (h.of_named hn) rfl rfl rfl rfl rfl rfl)
        · exact h

theorem kept_judges {st : RunState} (members : List (Int × Rat)) (h : Every P st) :
    Every P (members.foldl (judge env) st) := by
  induction members generalizing st with
  | nil => exact h
  | cons m members ih =>
    apply ih
    unfold judge
    split
    · rename_i n hn
      exact h.setNode (hP.congr (h.of_get hn) rfl rfl rfl rfl rfl rfl)
    · exact h

theorem kept_verifierGroupScored {st : RunState} (e : Event) (h : Every P st) :
    Every P (onVerifierGroupScored env st e) := by
  unfold onVerifierGroupScored
  dsimp only
  split
  · exact h
  · split
    · split
      · exact h
      · split
        · exact h
        · split
          · exact h
          · exact kept_judges hP _ h
    · exact h

omit hP in
theorem nodes_bestConfirmed (c : FoldCore) (e : Event) :
    (onBestConfirmed c e).st.nodes = c.st.nodes := by
  unfold onBestConfirmed
  dsimp only
  split
  · rfl
  · split
    · rfl
    · split
      · rfl
      · split <;> rfl

/-! ## The run -/

theorem kept_metricRetarget {c : FoldCore} (e : Event) (h : Every P c.st) :
    Every P (onMetricRetarget c e).st := by
  unfold onMetricRetarget
  split
  · exact h
  · rename_i key _
    split
    · exact h
    · split
      · exact h
      · have hrun : Every P (retargetedRun c.st e key) := h.of_nodes rfl
        have hmap : Every P ((retargetedRun c.st e key).mapNodes
            (retargetedNode (retargetedRun c.st e key))
            (applyObjective_id (retargetedRun c.st e key))) :=
          hrun.mapNodes fun n hn => kept_retargeted hP hn
        exact hmap.of_nodes rfl

theorem kept_clearEvalActivity {st : RunState} (h : Every P st) :
    Every P (clearEvalActivityForNewOwner st) := by
  unfold clearEvalActivityForNewOwner
  apply h.mapNodes
  intro n hn
  split
  · exact hP.congr hn rfl rfl rfl rfl rfl rfl
  · exact hn

omit hP in
theorem nodes_ablate (c : FoldCore) (e : Event) : (onAblate c e).st.nodes = c.st.nodes := by
  unfold onAblate
  dsimp only
  split
  · rfl
  · split
    · rfl
    · split
      · rfl
      · split <;> rfl

theorem kept_resumeOrRunReopened {c : FoldCore} (e : Event) (h : Every P c.st) :
    Every P (onResumeOrRunReopened c e).st := by
  unfold onResumeOrRunReopened
  dsimp only
  refine Every.of_nodes ?_ (nodes_reopenRun _)
  split
  · have hrot : Every P (rotateSearchEpoch c.st c.st.holdoutEpochAware) :=
      kept_rotate hP c.st.holdoutEpochAware [] h
    exact hrot.of_nodes (nodes_invalidateCertificates _)
  · split
    · have hrot : Every P (rotateSearchEpoch c.st false) := kept_rotate hP false [] h
      exact hrot.of_nodes (nodes_invalidateCertificates _)
    · exact h

theorem kept_resumeServed {st : RunState} (e : Event) (h : Every P st) :
    Every P (onResumeServed st e) := by
  have hserved : Every P (clearIfOwnerBoundary (servedAt st e) e) := by
    unfold clearIfOwnerBoundary
    split
    · exact kept_clearEvalActivity hP (h.of_nodes rfl)
    · exact h.of_nodes rfl
  unfold onResumeServed
  split
  · exact h
  · split <;> exact hserved

omit hP in
theorem nodes_runFinished (s : FoldState) (e : Event) :
    (onRunFinished env s e).st.nodes = s.st.nodes := by
  unfold onRunFinished
  dsimp only
  split <;> rfl

omit hP in
theorem nodes_upstreamExecution (st : RunState) (e : Event) :
    (onUpstreamExecution st e).nodes = st.nodes := by
  unfold onUpstreamExecution
  split <;> rfl

theorem kept_stepWith {s : FoldState} {e : Event}
    (hok : e.kind = some .nodeEvaluated → Settles P env s.st e) (h : Every P s.st) :
    Every P (stepWith pred env s e).st := by
  unfold stepWith
  cases hk : e.kind with
  | none => exact h
  | some t =>
    cases t with
    | runStarted => exact h.of_nodes (keeps_runStarted env s.st e).nodes
    | metricRetarget => exact kept_metricRetarget hP e h
    | hostGrading => exact h
    | trustGateChanged => exact h.of_nodes (keeps_trustGateChanged env s.st e).nodes
    | nodeBuilding => exact kept_nodeBuilding e h
    | nodeCreated => exact kept_nodeCreated hP e h
    | nodeEvalStarted => exact kept_nodeEvalStarted hP e h
    | nodeEvaluated => exact kept_nodeEvaluated (hok hk) h
    | nodeFailed => exact kept_nodeFailed hP e h
    | nodeRepaired => exact kept_nodeRepaired hP e h
    | nodeOverlayRebased => exact kept_overlayRebased hP e h
    | nodeTombstoned => exact kept_nodeTombstoned hP e h
    | nodeReset => exact kept_nodeReset hP e h
    | nodeAbort => exact kept_nodeAbort hP e h
    | stageFinished => exact kept_stageFinished hP e h
    | appliedParamsBackfilled => exact kept_appliedParamsBackfilled hP e h
    | scoreMetricsBackfilled => exact kept_scoreMetricsBackfilled hP e h
    | extraMetricsImported => exact kept_extraMetricsImported hP e h
    | confirmEval => exact h.of_nodes (nodes_confirmEval s.toFoldCore e)
    | nodeConfirmed => exact kept_nodeConfirmed hP e h
    | evalNoiseSeed => exact h.of_nodes (nodes_evalNoiseSeed s.toFoldCore e)
    | holdoutEvaluated => exact kept_holdoutEvaluated hP e h
    | agentValidated => exact kept_agentValidated hP e h
    | proxyScored => exact h.of_nodes (keeps_proxyScored s.st e).nodes
    | nodeValueEstimated => exact kept_nodeValueEstimated hP e h
    | nodeVerified => exact kept_nodeVerified hP e h
    | verifierGroupScored => exact kept_verifierGroupScored hP e h
    | rewardHackSuspected => exact h.of_nodes (keeps_rewardHackSuspected s.st e).nodes
    | bestConfirmed => exact h.of_nodes (nodes_bestConfirmed s.toFoldCore e)
    | approvalRequested => exact h.of_nodes (keeps_approvalRequested s.st e).nodes
    | approvalGranted => exact h.of_nodes (keeps_approvalGranted s.st e).nodes
    | ablate => exact h.of_nodes (nodes_ablate s.toFoldCore e)
    | forceConfirm => exact h
    | forceAblate => exact h
    | fork => exact h.of_nodes (keeps_fork s.st e).nodes
    | promote => exact h.of_nodes (keeps_promote s.st e).nodes
    | confirmDone => exact h.of_nodes (keeps_confirmDone s.st e).nodes
    | pause => exact h.of_nodes (keeps_pauseWith s.st e e.data).nodes
    | restart => exact h.of_nodes (keeps_restart s.st e).nodes
    | resume => exact kept_resumeOrRunReopened hP e h
    | runReopened => exact kept_resumeOrRunReopened hP e h
    | resumeRequested => exact h.of_nodes (keeps_resumeRequested s.st e).nodes
    | resumeServed => exact kept_resumeServed hP e h
    | runFinished => exact h.of_nodes (nodes_runFinished s e)
    | finalizationFinished => exact h.of_nodes (keeps_finalizationFinished s.st e).nodes
    | runAbort => exact h
    | upstreamExecution => exact h.of_nodes (nodes_upstreamExecution s.st e)
    | policyDecision => exact h
    | hypothesisRanked => exact h.of_nodes (keeps_hypothesisRanked s.st e).nodes

end Handlers

end Kept

end LoopLab

/-!
## What every handler keeps of the nodes' scores

The metric a node ranks by and the task's own metric are stored as the JSON values they came as.
-/

namespace LoopLab
open Lib Board

def Json.isScore : Json → Bool
  | .null | .float _ => true
  | _ => false

theorem isScore_ofMetric (q : Option Rat) : (Json.ofMetric q).isScore = true := by
  cases q <;> rfl

structure Node.Measured (n : Node) : Prop where
  metric : n.metric.isScore = true
  taskMetric : n.taskMetric.isScore = true

theorem Node.Measured.congr {n m : Node} (h : n.Measured) (hmetric : m.metric = n.metric)
    (htask : m.taskMetric = n.taskMetric) : m.Measured :=
  ⟨hmetric ▸ h.metric, htask ▸ h.taskMetric⟩

abbrev AllMeasured : RunState → Prop := Every Node.Measured

/-! ## One node -/

theorem Node.Measured.applyObjective {st : RunState} {n : Node} (h : n.taskMetric.isScore = true) :
    (applyObjective st n).Measured := by
  unfold LoopLab.applyObjective
  split
  · exact ⟨rfl, h⟩
  · constructor
    · dsimp only
      cases st.objectiveKey with
      | none => exact h
      | some key => exact isScore_ofMetric _
    · exact h

/-- The row leaves a task metric that is no score: under an objective it is stored as it came. -/
def storesScore (st : RunState) (d : Obj) : Bool :=
  st.objectiveKey.isNone || (d.get "task_metric").isScore

theorem measured_evaluatedNode {env : Env} {st : RunState} {e : Event} {n : Node}
    (h : storesScore st e.data = true) : (evaluatedNode env st e n).Measured := by
  unfold evaluatedNode
  apply Node.Measured.applyObjective
  dsimp only
  unfold storesScore at h
  cases hkey : st.objectiveKey with
  | none => exact isScore_ofMetric _
  | some key =>
    rw [hkey, Option.isNone_some, Bool.false_or] at h
    dsimp only [Option.isSome_some, if_true]
    unfold Obj.get Obj.getD at h
    unfold Obj.getD
    cases hrow : e.data.lookup "task_metric" with
    | none => exact isScore_ofMetric _
    | some v =>
      rw [hrow] at h
      exact h

theorem taskMetric_applyObjective (st : RunState) (n : Node) :
    (applyObjective st n).taskMetric = n.taskMetric := by
  unfold applyObjective
  split <;> rfl

theorem taskMetric_evaluatedNode {env : Env} {st : RunState} {e : Event} {n : Node}
    (h : storesScore st e.data = false) : (evaluatedNode env st e n).taskMetric.isScore = false := by
  unfold storesScore at h
  obtain ⟨hkey, hraw⟩ := Bool.or_eq_false_iff.mp h
  have hsome : st.objectiveKey.isSome = true := by
    cases hk : st.objectiveKey with
    | none =>
      rw [hk] at hkey
      cases hkey
    | some key => rfl
  unfold evaluatedNode
  rw [taskMetric_applyObjective]
  dsimp only
  rw [if_pos hsome]
  unfold Obj.get Obj.getD at hraw
  unfold Obj.getD
  cases hrow : e.data.lookup "task_metric" with
  | none =>
    rw [hrow] at hraw
    cases hraw
  | some v =>
    rw [hrow] at hraw
    exact hraw

/-! ## The handlers -/

theorem measured_kept : Kept Node.Measured where
  congr h hmetric htask _ _ _ _ := h.congr hmetric htask
  fresh _ hmetric htask _ _ _ := ⟨hmetric ▸ rfl, htask ▸ rfl⟩
  objective _ _ h := Node.Measured.applyObjective h.taskMetric
  failed _ _ _ h _ := h.congr rfl rfl
  backfilled _ _ _ h _ := h.congr rfl rfl
  beside _ _ _ h _ _ := h.congr rfl rfl
  imported _ _ _ h _ _ := h.congr rfl rfl

def SettlesUsably (st : RunState) (e : Event) : Prop :=
  ∀ n, st.nodeForEvent e.data = some n → chargesOnly st n e.data = false → n.status = .pending →
    storesScore st e.data = true

theorem measured_stepWith {pred : Int → Int} {env : Env} {s : FoldState} {e : Event}
    (hok : e.kind = some .nodeEvaluated → SettlesUsably s.st e) (h : AllMeasured s.st) :
    AllMeasured (stepWith pred env s e).st := by
  apply kept_stepWith measured_kept _ h
  intro hk n hn honly hst
  exact measured_evaluatedNode (hok hk n hn honly hst)

end LoopLab
