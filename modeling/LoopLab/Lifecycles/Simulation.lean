import LoopLab.Lifecycles.Refines

/-!
# Every step is a run of board changes

The control handlers and the run-level handlers, and the refinement of the whole step by dispatch.
-/

set_option autoImplicit false

namespace LoopLab
open Lib Board

section Handlers
variable {pred : Int → Int} {may : May Int} {env : Env}

theorem moves_onNodeFailed (s : FoldState) (e : Event) (hw : MayWrite may s.st e.data true) :
    Moves pred may s.toFoldCore (onNodeFailed env s e).toFoldCore := by
  unfold onNodeFailed
  split <;> exact moves_nodeFailed s.toFoldCore e hw

/-! ## Control events -/

theorem moves_nodeTombstoned (s : FoldState) (e : Event) (hren : ∀ id, may.renews id) :
    Moves pred may s.toFoldCore (onNodeTombstoned pred s e).toFoldCore := by
  unfold onNodeTombstoned
  have hdel : Moves pred may s.toFoldCore
      { st := (((e.data.get "node_ids").arr?.getD []).foldl (tombstoneOne pred) (s.st, [])).1
        ctx := s.ctx } := moves_tombstone s.ctx _ (s.st, [])
  generalize ((e.data.get "node_ids").arr?.getD []).foldl (tombstoneOne pred) (s.st, []) = acc
    at hdel ⊢
  obtain ⟨st, affected⟩ := acc
  dsimp only at hdel ⊢
  have hdrop := hdel.trans (moves_dropAffected _ affected)
  split
  · exact .refl
  · split
    · exact hdrop.trans (Moves.of_eq rfl)
    · exact (hdrop.trans (moves_certificates _)).trans (moves_invalidateHoldout _ [] hren)

theorem boardOf_closeLifecycle (c : FoldCore) (n : Node) :
    boardOf { c with st := closeLifecycle pred c.st n } = { boardOf c with
      failures := (boardOf c).dropFailure pred (some (lifeOf n))
      aborted := c.st.abortedNodes.filter (· ≠ n.id) } := by
  have hforget (st : RunState) : boardOf { c with st := forgetLifecycle (unpauseFor st n) n } =
      { boardOf { c with st := st } with aborted := st.abortedNodes.filter (· ≠ n.id) } := by
    unfold unpauseFor
    split <;> rfl
  have hab : (removeCurrentFailure pred c.st n).abortedNodes = c.st.abortedNodes :=
    congrArg Board.aborted (boardOf_removeCurrentFailure pred c n)
  unfold closeLifecycle
  rw [hforget, boardOf_removeCurrentFailure, hab]

theorem renewal_reopenedNode (st : RunState) (n : Node) (d : Obj) :
    Renewal Node.Fresh (lifeOf n) (lifeOf (reopenedNode st n d)) := renewal_resetNode n _ _

theorem moves_rotateAfterReset (c : FoldCore) (before : RunState) (d : Obj) (nid : Int)
    (hren : ∀ id, may.renews id) :
    Moves pred may c { c with st := rotateAfterReset before c.st d nid } := by
  unfold rotateAfterReset
  split
  · exact moves_rotate c true [nid] hren
  · split
    · exact moves_rotate c false [] hren
    · exact .refl

theorem moves_nodeReset (s : FoldState) (e : Event) (hren : ∀ id, may.renews id) :
    Moves pred may s.toFoldCore (onNodeReset pred s e).toFoldCore := by
  unfold onNodeReset
  dsimp only
  split
  · exact .refl
  · rename_i n hn
    split
    · exact .refl
    · have hrenew : Moves pred may s.toFoldCore
          { s.toFoldCore with
            st := (closeLifecycle pred s.st n).setNode (reopenedNode s.st n e.data) } := by
        refine moves_renew (RunState.id_of_nodeForEvent hn).2 (hren n.id)
          (renewal_reopenedNode s.st n e.data) ?_
        rw [boardOf_setNode { s.toFoldCore with st := closeLifecycle pred s.st n },
          boardOf_closeLifecycle]
      have hrotate := hrenew.trans (moves_rotateAfterReset _ s.st e.data n.id hren)
      exact (hrotate.trans (moves_certificates _)).trans (Moves.of_eq rfl)

theorem boardOf_abortNode (c : FoldCore) (nid : Int) :
    boardOf { c with st := abortNode pred c.st nid } = { boardOf c with
      failures := (boardOf c).dropFailure pred ((boardOf c).lives.get nid)
      aborted := c.st.abortedNodes ++ [nid] } := by
  unfold abortNode
  rw [get_boardOf]
  dsimp only
  cases hget : c.st.nodes.get nid with
  | none => rfl
  | some n =>
    have hab : (removeCurrentFailure pred c.st n).abortedNodes = c.st.abortedNodes :=
      congrArg Board.aborted (boardOf_removeCurrentFailure pred c n)
    calc boardOf { c with st := { removeCurrentFailure pred c.st n with
          abortedNodes := (removeCurrentFailure pred c.st n).abortedNodes ++ [nid] } }
        = { boardOf { c with st := removeCurrentFailure pred c.st n } with
          aborted := (removeCurrentFailure pred c.st n).abortedNodes ++ [nid] } := rfl
      _ = _ := by rw [boardOf_removeCurrentFailure, hab]; rfl

theorem moves_abortNode (c : FoldCore) {nid : Int} (h : c.st.aborted nid = false) :
    Moves pred may c { c with st := abortNode pred c.st nid } := by
  refine Moves.of_step (boardOf_abortNode c nid) (.abort _ nid ?_)
  unfold RunState.aborted at h
  show nid ∉ c.st.abortedNodes
  simpa using h

theorem moves_stopRerun (c : FoldCore) (nid : Int) :
    Moves pred may c { c with st := stopRerun c.st nid } := by
  unfold stopRerun
  split
  · rename_i n hget
    have hid := Table.key_of_get hget
    subst hid
    refine moves_setNode hget ⟨rfl, rfl, rfl, rfl, rfl⟩ (.inr fun h => ?_)
    exact congrArg (fun m : Node => { m with rerunFrom := .null, rerunStage := .null }) h
  · exact .refl

theorem moves_dropAborted (c : FoldCore) (nid : Int) :
    Moves pred may c { c with st := dropAborted c.st nid } := by
  have hpause : boardOf { c with st := unpauseNode c.st nid } = boardOf c := by
    unfold unpauseNode
    split <;> rfl
  have happrove (st : RunState) :
      boardOf { c with st := disapproveNode st nid } = boardOf { c with st := st } := by
    unfold disapproveNode
    split <;> rfl
  exact Moves.of_eq ((happrove _).trans hpause)

theorem moves_nodeAbort (s : FoldState) (e : Event) (hren : ∀ id, may.renews id) :
    Moves pred may s.toFoldCore (onNodeAbort pred s e).toFoldCore := by
  unfold onNodeAbort
  split
  · exact .refl
  · rename_i nid _
    split
    · exact .refl
    · rename_i hguard
      have hfresh : s.st.aborted nid = false := by
        simp only [acceptsAbort, Bool.not_eq_true', Bool.not_eq_false, Bool.and_eq_true] at hguard
        exact hguard.1
      have habort : Moves pred may s.toFoldCore { s.toFoldCore with
          st := dropAborted (stopRerun (abortNode pred s.st nid) nid) nid } :=
        ((moves_abortNode s.toFoldCore hfresh).trans (moves_stopRerun _ nid)).trans
          (moves_dropAborted _ nid)
      dsimp only
      split
      · exact habort.trans (Moves.of_eq rfl)
      · exact (habort.trans (moves_certificates _)).trans (moves_invalidateHoldout _ [] hren)

/-! ## The run -/

theorem sameLife_retargetedNode (st : RunState) (n : Node) : SameLife n (retargetedNode st n) := by
  obtain ⟨hid, hatt, hphase, htomb, hled⟩ := sameLife_applyObjective st n
  exact ⟨hid, hatt, hphase, htomb, hled⟩

theorem Node.Fresh.retargetedNode {n : Node} (st : RunState) (h : n.Fresh) :
    (retargetedNode st n).Fresh := by
  have hobj := h.applyObjective st
  unfold LoopLab.retargetedNode
  generalize LoopLab.applyObjective st n = m at hobj ⊢
  exact congrArg (fun m : Node => { m with
    confirmedMean := none
    confirmedStd := none
    confirmedSeeds := none
    confirmedRuler := none
    verifierScore := none }) hobj

theorem moves_rerank (c : FoldCore) :
    Moves pred may c { c with st := rerank c.st } := by
  have hmap : Moves pred may c
      { c with st := c.st.mapNodes (retargetedNode c.st) (applyObjective_id c.st) } :=
    moves_mapNodes _ fun n _ =>
      .inl ⟨sameLife_retargetedNode c.st n, Node.Fresh.retargetedNode c.st⟩
  exact hmap.trans (Moves.of_eq rfl)

theorem moves_metricRetarget (c : FoldCore) (e : Event) :
    Moves pred may c (onMetricRetarget c e) := by
  unfold onMetricRetarget
  split
  · exact .refl
  · split
    · exact .refl
    · split
      · exact .refl
      · rename_i key _ _ _
        have hrow : Moves pred may c { c with st := retargetedRun c.st e key } :=
          Moves.of_eq rfl
        exact (hrow.trans (moves_rerank _)).trans (moves_certificates _)

theorem moves_ablate (c : FoldCore) (e : Event) :
    Moves pred may c (onAblate c e) := by
  unfold onAblate
  dsimp only
  split
  · exact .refl
  · split
    · exact .refl
    · split
      · exact (Moves.of_eq rfl).trans (moves_charge ⟨recordAblation c.st e.data _ _, c.ctx⟩ _ _)
      · split
        · exact Moves.of_eq rfl
        · exact ((Moves.of_eq rfl).trans
            (moves_charge ⟨recordAblation c.st e.data _ _, c.ctx⟩ _ _)).trans (Moves.of_eq rfl)

theorem moves_resumeOrRunReopened (c : FoldCore) (e : Event) (hren : ∀ id, may.renews id) :
    Moves pred may c (onResumeOrRunReopened c e) := by
  unfold onResumeOrRunReopened
  dsimp only
  split
  · exact ((moves_rotate c _ [] hren).trans (moves_certificates _)).trans (Moves.of_eq rfl)
  · split
    · exact ((moves_rotate c _ [] hren).trans (moves_certificates _)).trans (Moves.of_eq rfl)
    · exact Moves.of_eq rfl

theorem moves_clearEvalActivity (c : FoldCore) :
    Moves pred may c { c with st := clearEvalActivityForNewOwner c.st } := by
  refine moves_mapNodes (fun n => by split <;> rfl) fun n _ => ?_
  split
  · refine .inl ⟨⟨rfl, rfl, rfl, rfl, rfl⟩, fun h => ?_⟩
    exact congrArg (fun m : Node =>
      { m with evalActivityStarted := false, evalStartedAt := none }) h
  · exact .inl ⟨⟨rfl, rfl, rfl, rfl, rfl⟩, fun h => h⟩

theorem upstreamSeconds_nonneg {d : Obj} {q : Rat} (h : upstreamSeconds d = some q) : 0 ≤ q := by
  obtain ⟨row, -, hq⟩ := Option.bind_eq_some_iff.mp h
  simpa using (Option.filter_eq_some_iff.mp hq).2

theorem moves_upstreamExecution (c : FoldCore) (e : Event) :
    Moves pred may c { c with st := onUpstreamExecution c.st e } := by
  unfold onUpstreamExecution
  split
  · exact .refl
  · rename_i q hq
    exact Moves.of_step rfl (.spend _ CostKind.upstream q (upstreamSeconds_nonneg hq))

theorem moves_resumeServed (c : FoldCore) (e : Event) :
    Moves pred may c { c with st := onResumeServed c.st e } := by
  unfold onResumeServed
  split
  · exact .refl
  · have hserved : Moves pred may c
        { c with st := clearIfOwnerBoundary (servedAt c.st e) e } := by
      unfold clearIfOwnerBoundary
      split
      · exact (Moves.of_eq rfl).trans (moves_clearEvalActivity { c with st := servedAt c.st e })
      · exact Moves.of_eq rfl
    split
    · exact hserved.trans (Moves.of_eq rfl)
    · exact hserved

structure KeepsBoard (st st' : RunState) : Prop where
  nodes : st'.nodes = st.nodes
  aborted : st'.abortedNodes = st.abortedNodes
  failures : st'.currentFailureCount = st.currentFailureCount
  level : st'.failureSpikeLevel = st.failureSpikeLevel
  total : st'.totalEvalSeconds = st.totalEvalSeconds
  byKind : st'.evalSecondsByKind = st.evalSecondsByKind

theorem KeepsBoard.same {st : RunState} : KeepsBoard st st := ⟨rfl, rfl, rfl, rfl, rfl, rfl⟩

theorem KeepsBoard.moves {st st' : RunState} {ctx : FoldCtx} (h : KeepsBoard st st') :
    Moves pred may { st := st, ctx := ctx } { st := st', ctx := ctx } := by
  apply Moves.of_eq
  unfold boardOf
  simp only [h.nodes, h.aborted, h.failures, h.level, h.total, h.byKind]

end Handlers

theorem keeps_runStarted (env : Env) (st : RunState) (e : Event) :
    KeepsBoard st (onRunStarted env st e) := by
  unfold onRunStarted
  dsimp only
  split
  · exact .same
  · exact ⟨rfl, rfl, rfl, rfl, rfl, rfl⟩

theorem keeps_trustGateChanged (env : Env) (st : RunState) (e : Event) :
    KeepsBoard st (onTrustGateChanged env st e) := by
  unfold onTrustGateChanged
  dsimp only
  split
  · exact ⟨rfl, rfl, rfl, rfl, rfl, rfl⟩
  · exact .same

theorem keeps_proxyScored (st : RunState) (e : Event) : KeepsBoard st (onProxyScored st e) := by
  unfold onProxyScored
  dsimp only
  split
  · exact .same
  · split
    · exact .same
    · split
      · exact .same
      · exact ⟨rfl, rfl, rfl, rfl, rfl, rfl⟩

theorem keeps_rewardHackSuspected (st : RunState) (e : Event) :
    KeepsBoard st (onRewardHackSuspected st e) := by
  unfold onRewardHackSuspected
  dsimp only
  split
  · exact .same
  · split
    · exact .same
    · exact ⟨rfl, rfl, rfl, rfl, rfl, rfl⟩

theorem keeps_approvalRequested (st : RunState) (e : Event) :
    KeepsBoard st (onApprovalRequested st e) := by
  unfold onApprovalRequested
  dsimp only
  split
  · exact .same
  · split
    · exact .same
    · split
      · exact .same
      · exact ⟨rfl, rfl, rfl, rfl, rfl, rfl⟩

theorem keeps_approvalGranted (st : RunState) (e : Event) :
    KeepsBoard st (onApprovalGranted st e) := by
  unfold onApprovalGranted
  dsimp only
  split
  · exact ⟨rfl, rfl, rfl, rfl, rfl, rfl⟩
  · split
    · exact .same
    · split
      · exact .same
      · exact ⟨rfl, rfl, rfl, rfl, rfl, rfl⟩

theorem keeps_fork (st : RunState) (e : Event) : KeepsBoard st (onFork st e) := by
  unfold onFork
  dsimp only
  split
  · exact .same
  · split
    · split
      · exact .same
      · exact ⟨rfl, rfl, rfl, rfl, rfl, rfl⟩
    · split
      · exact ⟨rfl, rfl, rfl, rfl, rfl, rfl⟩
      · exact .same

theorem keeps_promote (st : RunState) (e : Event) : KeepsBoard st (onPromote st e) := by
  unfold onPromote
  split
  · exact .same
  · exact ⟨rfl, rfl, rfl, rfl, rfl, rfl⟩

theorem keeps_confirmDone (st : RunState) (e : Event) : KeepsBoard st (onConfirmDone st e) := by
  unfold onConfirmDone
  split
  · exact .same
  · split
    · exact .same
    · exact ⟨rfl, rfl, rfl, rfl, rfl, rfl⟩

theorem keeps_pauseWith (st : RunState) (e : Event) (d : Obj) : KeepsBoard st (pauseWith st e d) := by
  have hdrain : KeepsBoard st (undrain st d) := by
    unfold undrain
    split
    · exact .same
    · exact ⟨rfl, rfl, rfl, rfl, rfl, rfl⟩
  unfold pauseWith
  split
  · exact ⟨hdrain.1, hdrain.2, hdrain.3, hdrain.4, hdrain.5, hdrain.6⟩
  · split
    · exact hdrain
    · split
      · exact hdrain
      · split
        · exact ⟨hdrain.1, hdrain.2, hdrain.3, hdrain.4, hdrain.5, hdrain.6⟩
        · exact hdrain

theorem keeps_restart (st : RunState) (e : Event) : KeepsBoard st (onRestart st e) := by
  have hpause := keeps_pauseWith st e []
  unfold onRestart
  dsimp only
  split
  · exact hpause
  · exact ⟨hpause.1, hpause.2, hpause.3, hpause.4, hpause.5, hpause.6⟩

theorem keeps_resumeRequested (st : RunState) (e : Event) :
    KeepsBoard st (onResumeRequested st e) := by
  have hask : KeepsBoard st (resumeAsked st e) := by
    unfold resumeAsked
    split
    · exact .same
    · exact ⟨rfl, rfl, rfl, rfl, rfl, rfl⟩
  unfold onResumeRequested
  split
  · exact ⟨hask.1, hask.2, hask.3, hask.4, hask.5, hask.6⟩
  · exact hask

theorem keeps_finalizationFinished (st : RunState) (e : Event) :
    KeepsBoard st (onFinalizationFinished st e) := by
  unfold onFinalizationFinished
  dsimp only
  split
  · split
    · exact ⟨rfl, rfl, rfl, rfl, rfl, rfl⟩
    · exact .same
  · exact .same

theorem keeps_hypothesisRanked (st : RunState) (e : Event) :
    KeepsBoard st (onHypothesisRanked st e) := by
  unfold onHypothesisRanked
  dsimp only
  split
  · exact .same
  · exact ⟨rfl, rfl, rfl, rfl, rfl, rfl⟩

theorem moves_bestConfirmed {pred : Int → Int} {may : May Int} (c : FoldCore)
    (e : Event) : Moves pred may c (onBestConfirmed c e) := by
  apply Moves.of_eq
  unfold onBestConfirmed
  dsimp only
  split
  · rfl
  · split
    · rfl
    · split
      · rfl
      · split
        · rfl
        · split <;> rfl

theorem moves_runFinished {pred : Int → Int} {may : May Int} (env : Env)
    (s : FoldState) (e : Event) :
    Moves pred may s.toFoldCore (onRunFinished env s e).toFoldCore := by
  apply Moves.of_eq
  unfold onRunFinished
  dsimp only
  split <;> rfl

/-! ## The step -/

theorem stepWith_moves (pred : Int → Int) (env : Env) (s : FoldState) (e : Event) :
    Moves pred (stepMay env s.st e) s.toFoldCore (stepWith pred env s e).toFoldCore := by
  unfold stepWith
  cases hk : e.kind with
  | none => exact .refl
  | some t =>
    have hw (hm : t ∈ measuringTypes) {row : Obj} (hrow : row ∈ measurementRows t e.data) :
        MayWrite (stepMay env s.st e) s.st row (readsAttemptAlias t) :=
      fun n hn hg => ⟨t, hk, hm, row, hrow, n, hn, rfl, hg⟩
    have hself (ht : t ≠ .verifierGroupScored) : e.data ∈ measurementRows t e.data := by
      simp [measurementRows, ht]
    have hren (ht : t ∈ renewingTypes) : ∀ id, (stepMay env s.st e).renews id := fun _ => ⟨t, ht, hk⟩
    cases t with
    | runStarted => exact (keeps_runStarted env s.st e).moves
    | metricRetarget => exact moves_metricRetarget _ e
    | hostGrading => exact Moves.of_eq rfl
    | trustGateChanged => exact (keeps_trustGateChanged env s.st e).moves
    | nodeBuilding => exact moves_nodeBuilding env s e
    | nodeCreated =>
      exact moves_nodeCreated s e (hren (by decide)) fun id hid hold hacc => ⟨hk, hid, hold, hacc⟩
    | nodeEvalStarted => exact moves_nodeEvalStarted _ e (hw (by decide) (hself (by decide)))
    | nodeEvaluated => exact moves_nodeEvaluated s e (hw (by decide) (hself (by decide)))
    | nodeFailed => exact moves_onNodeFailed s e (hw (by decide) (hself (by decide)))
    | nodeRepaired => exact moves_nodeRepaired _ e
    | nodeOverlayRebased => exact moves_nodeOverlayRebased _ e
    | nodeTombstoned => exact moves_nodeTombstoned s e (hren (by decide))
    | nodeReset => exact moves_nodeReset s e (hren (by decide))
    | nodeAbort => exact moves_nodeAbort s e (hren (by decide))
    | stageFinished => exact moves_stageFinished _ e fun n hn ha => ⟨n, ⟨hk, hn, ha⟩, rfl⟩
    | appliedParamsBackfilled =>
      exact moves_appliedParamsBackfilled _ e (hw (by decide) (hself (by decide)))
    | scoreMetricsBackfilled =>
      exact moves_scoreMetricsBackfilled _ e (hw (by decide) (hself (by decide)))
    | extraMetricsImported => exact moves_extraMetricsImported _ e (hw (by decide) (hself (by decide)))
    | confirmEval => exact moves_confirmEval _ e
    | nodeConfirmed => exact moves_nodeConfirmed _ e (hw (by decide) (hself (by decide)))
    | evalNoiseSeed => exact moves_evalNoiseSeed _ e
    | holdoutEvaluated => exact moves_holdoutEvaluated _ e (hw (by decide) (hself (by decide)))
    | agentValidated => exact moves_agentValidated _ e (hw (by decide) (hself (by decide)))
    | proxyScored => exact (keeps_proxyScored s.st e).moves
    | nodeValueEstimated => exact moves_nodeValueEstimated _ e (hw (by decide) (hself (by decide)))
    | nodeVerified => exact moves_nodeVerified _ e (hw (by decide) (hself (by decide)))
    | verifierGroupScored =>
      exact moves_verifierGroupScored _ e fun row hrow => hw (by decide) hrow
    | rewardHackSuspected => exact (keeps_rewardHackSuspected s.st e).moves
    | bestConfirmed => exact moves_bestConfirmed _ e
    | approvalRequested => exact (keeps_approvalRequested s.st e).moves
    | approvalGranted => exact (keeps_approvalGranted s.st e).moves
    | ablate => exact moves_ablate _ e
    | forceConfirm => exact Moves.of_eq rfl
    | forceAblate => exact Moves.of_eq rfl
    | fork => exact (keeps_fork s.st e).moves
    | promote => exact (keeps_promote s.st e).moves
    | confirmDone => exact (keeps_confirmDone s.st e).moves
    | pause => exact (keeps_pauseWith s.st e e.data).moves
    | restart => exact (keeps_restart s.st e).moves
    | resume => exact moves_resumeOrRunReopened _ e (hren (by decide))
    | runReopened => exact moves_resumeOrRunReopened _ e (hren (by decide))
    | resumeRequested => exact (keeps_resumeRequested s.st e).moves
    | resumeServed => exact moves_resumeServed _ e
    | runFinished => exact moves_runFinished env s e
    | finalizationFinished => exact (keeps_finalizationFinished s.st e).moves
    | runAbort => exact Moves.of_eq rfl
    | upstreamExecution => exact moves_upstreamExecution _ e
    | policyDecision => exact Moves.of_eq rfl
    | hypothesisRanked => exact (keeps_hypothesisRanked s.st e).moves

end LoopLab
