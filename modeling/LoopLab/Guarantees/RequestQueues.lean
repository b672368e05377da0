import LoopLab.Fold.Log

/-!
# The request queues are served in order

One rule moves the cursor of every queue: a receipt completes through the position it names, within the queue.
-/

set_option autoImplicit false

namespace LoopLab
open Lib

inductive Queue where
  | fork | inject | track | laneOp
  deriving DecidableEq, Repr

/-- The row that says a request of the queue was served. -/
def Queue.receipt : Queue → RowType
  | fork => .forkDone
  | inject => .injectDone
  | track => .trackDone
  | laneOp => .laneOpDone

def Queue.Request : Queue → Type
  | fork => Obj
  | inject => Obj
  | track => TrackRequest
  | laneOp => LaneOp

namespace LogState

def requests (s : LogState) : (q : Queue) → List q.Request
  | .fork => s.run.st.forkRequests
  | .inject => s.queues.injectRequests
  | .track => s.queues.trackRequests
  | .laneOp => s.queues.laneOpRequests

def done (s : LogState) : Queue → Int
  | .fork => s.queues.forksDone
  | .inject => s.queues.injectsDone
  | .track => s.queues.tracksDone
  | .laneOp => s.queues.laneOpsDone

def setDone (s : LogState) (q : Queue) (i : Int) : LogState :=
  { s with queues := match q with
    | .fork => { s.queues with forksDone := i }
    | .inject => { s.queues with injectsDone := i }
    | .track => { s.queues with tracksDone := i }
    | .laneOp => { s.queues with laneOpsDone := i } }

@[simp] theorem done_setDone (s : LogState) (q : Queue) (i : Int) : (s.setDone q i).done q = i := by
  cases q <;> rfl

theorem done_setDone_ne (s : LogState) {q q' : Queue} (i : Int) (h : q ≠ q') :
    (s.setDone q' i).done q = s.done q := by
  cases q <;> cases q' <;> first | rfl | exact absurd rfl h

@[simp] theorem requests_setDone (s : LogState) (q q' : Queue) (i : Int) :
    (s.setDone q' i).requests q = s.requests q := by
  cases q <;> cases q' <;> rfl

theorem setDone_self (s : LogState) (q : Queue) : s.setDone q (s.done q) = s := by
  cases q <;> rfl

end LogState

/-- The row is a receipt of the queue and names the position. -/
structure Serves (q : Queue) (e : Event) (i : Int) : Prop where
  row : e.row = some q.receipt
  idx : e.data.get "idx" = .int i

/-! ## The rule -/

theorem advance_int {done total : Int} (h0 : 0 ≤ done) (h : done ≤ total) (i : Int) :
    advanceRequestCursor done total (.int i) = if i < done then done else min (i + 1) total := by
  unfold advanceRequestCursor
  dsimp only
  rw [Int.max_eq_right (by omega : 0 ≤ total), Int.max_eq_right h0, Int.min_eq_left h]

theorem advance_other {done total : Int} (h0 : 0 ≤ done) (h : done ≤ total) {idx : Json}
    (hidx : ∀ i, idx ≠ .int i) : advanceRequestCursor done total idx = min (done + 1) total := by
  unfold advanceRequestCursor
  dsimp only
  rw [Int.max_eq_right (by omega : 0 ≤ total), Int.max_eq_right h0, Int.min_eq_left h]
  cases idx with
  | int i => exact absurd rfl (hidx i)
  | _ => rfl

theorem int_or_not (idx : Json) : (∃ i, idx = .int i) ∨ ∀ i, idx ≠ .int i := by
  cases idx with
  | int i => exact .inl ⟨i, rfl⟩
  | _ =>
    right
    intro i h
    cases h

theorem advance_within {done total : Int} (h0 : 0 ≤ done) (h : done ≤ total) (idx : Json) :
    done ≤ advanceRequestCursor done total idx ∧ advanceRequestCursor done total idx ≤ total := by
  rcases int_or_not idx with ⟨i, rfl⟩ | hidx
  · rw [advance_int h0 h]
    split <;> omega
  · rw [advance_other h0 h hidx]
    omega

theorem advance_passes {done total p : Int} (h0 : 0 ≤ done) (h : done ≤ total) (idx : Json)
    (hp : done ≤ p) (hlt : p < advanceRequestCursor done total idx) :
    (∃ i, idx = .int i ∧ p ≤ i) ∨
      ((∀ i, idx ≠ .int i) ∧ advanceRequestCursor done total idx = done + 1) := by
  rcases int_or_not idx with ⟨i, rfl⟩ | hidx
  · left
    refine ⟨i, rfl, ?_⟩
    rw [advance_int h0 h] at hlt
    split at hlt <;> omega
  · right
    refine ⟨hidx, ?_⟩
    rw [advance_other h0 h hidx] at hlt ⊢
    omega

theorem advance_serves {done total i : Int} (h0 : 0 ≤ done) (h : done ≤ total) (hi : i < total) :
    i < advanceRequestCursor done total (.int i) := by
  rw [advance_int h0 h]
  split <;> omega

theorem advance_served {done total i : Int} (h0 : 0 ≤ done) (h : done ≤ total) (hi : i < done) :
    advanceRequestCursor done total (.int i) = done := by
  rw [advance_int h0 h, if_pos hi]

/-! ## The fork queue under the rows of the run -/

section Forks
variable {pred : Int → Int}

@[simp] theorem forks_setNode (st : RunState) (n : Node) :
    (st.setNode n).forkRequests = st.forkRequests := rfl

@[simp] theorem forks_chargeTerminal (c : FoldCore) (n : Node) (d : Obj) :
    (chargeTerminalCost c n d).st.forkRequests = c.st.forkRequests := by
  unfold chargeTerminalCost
  split
  · rfl
  · split
    · rfl
    · split <;> rfl

@[simp] theorem forks_addFailure (st : RunState) (n : Node) (e : Event) :
    (addCurrentFailure st n e).forkRequests = st.forkRequests := by
  unfold addCurrentFailure
  split <;> rfl

@[simp] theorem forks_removeFailure (st : RunState) (n : Node) :
    (removeCurrentFailure pred st n).forkRequests = st.forkRequests := by
  unfold removeCurrentFailure
  split <;> rfl

@[simp] theorem forks_rotate (st : RunState) (requeue : Bool) (fresh : List Int) :
    (rotateSearchEpoch st requeue fresh).forkRequests = st.forkRequests := by
  unfold rotateSearchEpoch requeuePartitionBoundResults
  split
  · dsimp only
    split <;> rfl
  · rfl

@[simp] theorem forks_invalidateHoldout (st : RunState) (fresh : List Int) :
    (invalidateDisclosedHoldout st fresh).forkRequests = st.forkRequests := by
  unfold invalidateDisclosedHoldout
  split
  · rfl
  · rw [forks_rotate]

@[simp] theorem forks_certificates (c : FoldCore) :
    (invalidateCompletionCertificates c).st.forkRequests = c.st.forkRequests := rfl

theorem forks_nodeCreated (env : Env) (s : FoldState) (e : Event) :
    (onNodeCreated env s e).st.forkRequests = s.st.forkRequests := by
  unfold onNodeCreated
  split
  · rfl
  · split
    · split <;> rfl
    · dsimp only
      split
      · rfl
      · rw [forks_certificates, forks_invalidateHoldout, forks_setNode]

theorem forks_nodeEvaluated (env : Env) (s : FoldState) (e : Event) :
    (onNodeEvaluated env s e).st.forkRequests = s.st.forkRequests := by
  unfold onNodeEvaluated
  split
  · rfl
  · split
    · rw [forks_chargeTerminal]
    · split
      · rfl
      · dsimp only
        rw [forks_chargeTerminal, forks_setNode]

theorem forks_nodeFailed (env : Env) (s : FoldState) (e : Event) :
    (onNodeFailed env s e).st.forkRequests = s.st.forkRequests := by
  have hsettle (c : FoldCore) : (settleFailed env c e).st.forkRequests = c.st.forkRequests := by
    unfold settleFailed
    split
    · rfl
    · split
      · rw [forks_chargeTerminal]
      · split
        · rfl
        · dsimp only
          rw [forks_addFailure, forks_chargeTerminal, forks_setNode]
  unfold onNodeFailed
  split <;> exact hsettle s.toFoldCore

theorem forks_recordRepair (c : FoldCore) (d : Obj) :
    (recordRepairLedger c d).st.forkRequests = c.st.forkRequests := by
  unfold recordRepairLedger
  split
  · dsimp only
    split
    · rfl
    · split
      · rfl
      · split <;> rfl
  · rfl

theorem forks_nodeRepaired (env : Env) (c : FoldCore) (e : Event) :
    (onNodeRepaired env c e).st.forkRequests = c.st.forkRequests := by
  unfold onNodeRepaired
  dsimp only
  split
  · exact forks_recordRepair c e.data
  · split
    · exact forks_recordRepair c e.data
    · split <;> exact forks_recordRepair c e.data

variable (pred) in
theorem forks_tombstones (raws : List Json) (acc : RunState × List Int) :
    (raws.foldl (tombstoneOne pred) acc).1.forkRequests = acc.1.forkRequests := by
  induction raws generalizing acc with
  | nil => rfl
  | cons raw raws ih =>
    rw [List.foldl_cons, ih]
    unfold tombstoneOne
    split
    · rfl
    · split
      · rfl
      · rw [forks_setNode, forks_removeFailure]

theorem forks_dropAffected (st : RunState) (affected : List Int) :
    (dropAffected st affected).forkRequests = st.forkRequests := by
  unfold dropAffected
  dsimp only
  split <;> split <;> split <;> rfl

theorem forks_nodeTombstoned (s : FoldState) (e : Event) :
    (onNodeTombstoned pred s e).st.forkRequests = s.st.forkRequests := by
  have hdel := forks_tombstones pred ((e.data.get "node_ids").arr?.getD []) (s.st, [])
  unfold onNodeTombstoned
  generalize ((e.data.get "node_ids").arr?.getD []).foldl (tombstoneOne pred) (s.st, []) = acc
    at hdel ⊢
  obtain ⟨st, affected⟩ := acc
  dsimp only at hdel ⊢
  split
  · rfl
  · split
    · rw [forks_dropAffected, hdel]
    · rw [forks_invalidateHoldout, forks_certificates, forks_dropAffected, hdel]

theorem forks_closeLifecycle (st : RunState) (n : Node) :
    (closeLifecycle pred st n).forkRequests = st.forkRequests := by
  have hpause (st : RunState) : (unpauseFor st n).forkRequests = st.forkRequests := by
    unfold unpauseFor
    split <;> rfl
  exact (hpause _).trans (forks_removeFailure st n)

theorem forks_nodeReset (s : FoldState) (e : Event) :
    (onNodeReset pred s e).st.forkRequests = s.st.forkRequests := by
  have hrotate (before st : RunState) (d : Obj) (nid : Int) :
      (rotateAfterReset before st d nid).forkRequests = st.forkRequests := by
    unfold rotateAfterReset
    split
    · rw [forks_rotate]
    · split
      · rw [forks_rotate]
      · rfl
  unfold onNodeReset
  dsimp only
  split
  · rfl
  · split
    · rfl
    · exact (hrotate _ _ _ _).trans (forks_closeLifecycle s.st _)

theorem forks_nodeAbort (s : FoldState) (e : Event) :
    (onNodeAbort pred s e).st.forkRequests = s.st.forkRequests := by
  have habort (st : RunState) (nid : Int) :
      (abortNode pred st nid).forkRequests = st.forkRequests := by
    unfold abortNode
    dsimp only
    split
    · rw [forks_removeFailure]
    · rfl
  have hstop (st : RunState) (nid : Int) : (stopRerun st nid).forkRequests = st.forkRequests := by
    unfold stopRerun
    split <;> rfl
  have hdrop (st : RunState) (nid : Int) : (dropAborted st nid).forkRequests = st.forkRequests := by
    unfold dropAborted dethroneNode disapproveNode unpauseNode
    dsimp only
    split <;> split <;> rfl
  unfold onNodeAbort
  split
  · rfl
  · split
    · rfl
    · dsimp only
      split
      · rw [hdrop, hstop, habort]
      · rw [forks_invalidateHoldout, forks_certificates, hdrop, hstop, habort]

theorem forks_chargeConfirm (c : FoldCore) (n : Node) (seed : Int) (d : Obj) :
    (chargeConfirm c n seed d).st.forkRequests = c.st.forkRequests := by
  unfold chargeConfirm
  dsimp only
  split
  · rfl
  · split <;> rfl

theorem forks_confirmEval (c : FoldCore) (e : Event) :
    (onConfirmEval c e).st.forkRequests = c.st.forkRequests := by
  unfold onConfirmEval
  dsimp only
  split
  · rfl
  · split
    · rfl
    · split
      · rfl
      · have hcharge := forks_chargeConfirm c
        split
        · rw [hcharge]
        · split
          · rw [hcharge]
          · split <;> rw [hcharge]

theorem forks_evalNoiseSeed (c : FoldCore) (e : Event) :
    (onEvalNoiseSeed c e).st.forkRequests = c.st.forkRequests := by
  unfold onEvalNoiseSeed
  dsimp only
  split
  · split
    · split <;> rfl
    · split
      · split <;> rfl
      · split <;> rfl
  · rfl

theorem forks_holdoutEvaluated (env : Env) (c : FoldCore) (e : Event) :
    (onHoldoutEvaluated env c e).st.forkRequests = c.st.forkRequests := by
  have hcharge (nid : Int) : (chargeHoldout c nid e.data).st.forkRequests = c.st.forkRequests := by
    unfold chargeHoldout
    dsimp only
    split <;> rfl
  unfold onHoldoutEvaluated
  dsimp only
  split
  · rfl
  · rename_i nid _
    split
    · exact hcharge nid
    · split
      · exact hcharge nid
      · split
        · exact hcharge nid
        · split <;> exact hcharge nid

theorem forks_verifierGroupScored (env : Env) (st : RunState) (e : Event) :
    (onVerifierGroupScored env st e).forkRequests = st.forkRequests := by
  have hjudge (members : List (Int × Rat)) (st : RunState) :
      (members.foldl (judge env) st).forkRequests = st.forkRequests := by
    induction members generalizing st with
    | nil => rfl
    | cons m members ih =>
      rw [List.foldl_cons, ih]
      unfold judge
      split <;> rfl
  unfold onVerifierGroupScored
  dsimp only
  split
  · rfl
  · split
    · split
      · rfl
      · split
        · rfl
        · split
          · rfl
          · exact hjudge _ st
    · rfl

theorem forks_ablate (c : FoldCore) (e : Event) :
    (onAblate c e).st.forkRequests = c.st.forkRequests := by
  unfold onAblate
  dsimp only
  split
  · rfl
  · split
    · rfl
    · split
      · rfl
      · split <;> rfl

theorem forks_resumeOrRunReopened (c : FoldCore) (e : Event) :
    (onResumeOrRunReopened c e).st.forkRequests = c.st.forkRequests := by
  unfold onResumeOrRunReopened
  dsimp only
  split
  · exact forks_rotate _ _ _
  · split
    · exact forks_rotate _ _ _
    · rfl

theorem forks_pauseWith (st : RunState) (e : Event) (d : Obj) :
    (pauseWith st e d).forkRequests = st.forkRequests := by
  have hdrain : (undrain st d).forkRequests = st.forkRequests := by
    unfold undrain
    split <;> rfl
  unfold pauseWith
  split
  · exact hdrain
  · split
    · exact hdrain
    · split
      · exact hdrain
      · split <;> exact hdrain

theorem forks_restart (st : RunState) (e : Event) :
    (onRestart st e).forkRequests = st.forkRequests := by
  unfold onRestart
  dsimp only
  split <;> exact forks_pauseWith st e []

theorem forks_resumeRequested (st : RunState) (e : Event) :
    (onResumeRequested st e).forkRequests = st.forkRequests := by
  have hask : (resumeAsked st e).forkRequests = st.forkRequests := by
    unfold resumeAsked
    split <;> rfl
  unfold onResumeRequested
  split <;> exact hask

theorem forks_resumeServed (st : RunState) (e : Event) :
    (onResumeServed st e).forkRequests = st.forkRequests := by
  have hclear : (clearIfOwnerBoundary (servedAt st e) e).forkRequests = st.forkRequests := by
    unfold clearIfOwnerBoundary
    split <;> rfl
  unfold onResumeServed
  split
  · rfl
  · split <;> exact hclear

theorem prefix_of_eq {α : Type*} {l₁ l₂ : List α} (h : l₁ = l₂) : l₁ <+: l₂ :=
  h ▸ List.prefix_refl l₁

theorem forks_handle (env : Env) (s : FoldState) (e : Event) {t : EventType} (ht : t ≠ .fork) :
    (handle pred env s e t).st.forkRequests = s.st.forkRequests := by
  cases t with
  | fork => exact absurd rfl ht
  | nodeCreated => exact forks_nodeCreated env s e
  | nodeEvaluated => exact forks_nodeEvaluated env s e
  | nodeFailed => exact forks_nodeFailed env s e
  | nodeRepaired => exact forks_nodeRepaired env s.toFoldCore e
  | nodeTombstoned => exact forks_nodeTombstoned s e
  | nodeReset => exact forks_nodeReset s e
  | nodeAbort => exact forks_nodeAbort s e
  | confirmEval => exact forks_confirmEval s.toFoldCore e
  | evalNoiseSeed => exact forks_evalNoiseSeed s.toFoldCore e
  | holdoutEvaluated => exact forks_holdoutEvaluated env s.toFoldCore e
  | verifierGroupScored => exact forks_verifierGroupScored env s.st e
  | ablate => exact forks_ablate s.toFoldCore e
  | resume | runReopened => exact forks_resumeOrRunReopened s.toFoldCore e
  | pause => exact forks_pauseWith s.st e e.data
  | restart => exact forks_restart s.st e
  | resumeRequested => exact forks_resumeRequested s.st e
  | resumeServed => exact forks_resumeServed s.st e
  | _ =>
    -- the others update the state at most once, behind their guards
    simp only [handle, FoldState.lift, FoldState.liftCore, onRunStarted, onMetricRetarget,
      onHostGrading, onTrustGateChanged, onNodeBuilding, onNodeEvalStarted, onNodeOverlayRebased,
      onStageFinished, onAppliedParamsBackfilled, onScoreMetricsBackfilled, onExtraMetricsImported,
      onNodeConfirmed, onAgentValidated, onProxyScored, onNodeValueEstimated, onNodeVerified,
      onRewardHackSuspected, onBestConfirmed, onApprovalRequested, onApprovalGranted,
      onForceConfirm, onForceAblate, onPromote, onConfirmDone, onRunFinished,
      onFinalizationFinished, onRunAbort, onUpstreamExecution, onPolicyDecision, onHypothesisRanked]
    repeat' split
    all_goals rfl

end Forks

theorem forks_step (env : Env) (s : FoldState) (e : Event) :
    s.st.forkRequests <+: (step env s e).st.forkRequests := by
  unfold step stepWith
  cases e.kind with
  | none => exact List.prefix_refl _
  | some t =>
    by_cases ht : t = .fork
    · subst ht
      show s.st.forkRequests <+: (onFork s.st e).forkRequests
      unfold onFork
      dsimp only
      split
      · exact List.prefix_refl _
      · split
        · split
          · exact List.prefix_refl _
          · exact List.prefix_append _ _
        · split
          · exact List.prefix_append _ _
          · exact List.prefix_refl _
    · dsimp only
      apply prefix_of_eq
      exact (forks_handle env s e ht).symm

/-! ## One row -/

theorem foreignFork_idx {requests : List Obj} {done i : Int} {d : Obj} (h : d.get "idx" = .int i) :
    foreignFork requests done d = false := by
  have hhas : d.has "idx" = true := by
    unfold Obj.has
    cases hl : d.lookup "idx" with
    | some v => rfl
    | none =>
      unfold Obj.get Obj.getD at h
      rw [hl] at h
      cases h
  unfold foreignFork
  rw [hhas]
  rfl

theorem receipt_cases (env : Env) (s : LogState) {q : Queue} {e : Event}
    (h : e.row = some q.receipt) :
    (logStep env s e = s ∧ ∀ i, e.data.get "idx" ≠ .int i) ∨
      logStep env s e = s.setDone q
        (advanceRequestCursor (s.done q) (s.requests q).length (e.data.get "idx")) := by
  rw [logStep_row h]
  cases q with
  | fork =>
    cases hforeign : foreignFork s.run.st.forkRequests s.queues.forksDone e.data with
    | true =>
      left
      constructor
      · simp only [Queue.receipt, handleQueue, onForkDone, hforeign, if_true]
      · intro i hi
        rw [foreignFork_idx hi] at hforeign
        cases hforeign
    | false =>
      right
      simp only [Queue.receipt, handleQueue, onForkDone, hforeign, Bool.false_eq_true, if_false]
      rfl
  | inject => exact .inr rfl
  | track => exact .inr rfl
  | laneOp => exact .inr rfl

theorem trackRequested_cases (q : Queues) (e : Event) :
    onTrackRequested q e = q ∨
      ∃ r, onTrackRequested q e = { q with trackRequests := q.trackRequests ++ [r] } := by
  unfold onTrackRequested
  split
  · split
    · exact .inl rfl
    · exact .inr ⟨_, rfl⟩
  · exact .inl rfl

theorem receipt_of_other {env : Env} {q q' : Queue} {s : LogState} {e : Event}
    (h : e.row = some q'.receipt) (hne : q ≠ q') :
    (logStep env s e).done q = s.done q ∧ s.requests q <+: (logStep env s e).requests q := by
  rcases receipt_cases env s h with ⟨heq, -⟩ | heq
  · rw [heq]
    exact ⟨rfl, List.prefix_refl _⟩
  · rw [heq, LogState.done_setDone_ne _ _ hne, LogState.requests_setDone]
    exact ⟨rfl, List.prefix_refl _⟩

theorem other_cases (env : Env) (q : Queue) (s : LogState) {e : Event}
    (h : e.row ≠ some q.receipt) :
    (logStep env s e).done q = s.done q ∧ s.requests q <+: (logStep env s e).requests q := by
  have hreceipt (q' : Queue) (hrow : e.row = some q'.receipt) :
      (logStep env s e).done q = s.done q ∧ s.requests q <+: (logStep env s e).requests q := by
    apply receipt_of_other hrow
    rintro rfl
    exact h hrow
  cases hrow : e.row with
  | none =>
    rw [logStep_other hrow]
    cases q with
    | fork => exact ⟨rfl, forks_step env s.run e⟩
    | _ => exact ⟨rfl, List.prefix_refl _⟩
  | some t =>
    cases t with
    | forkDone => exact hreceipt .fork hrow
    | injectDone => exact hreceipt .inject hrow
    | trackDone => exact hreceipt .track hrow
    | laneOpDone => exact hreceipt .laneOp hrow
    | trackRequested =>
      rw [logStep_row hrow, handleQueue]
      rcases trackRequested_cases s.queues e with heq | ⟨r, heq⟩
      · rw [heq]
        cases q <;> exact ⟨rfl, List.prefix_refl _⟩
      · rw [heq]
        cases q with
        | track => exact ⟨rfl, List.prefix_append _ _⟩
        | _ => exact ⟨rfl, List.prefix_refl _⟩
    | injectNode =>
      rw [logStep_row hrow, handleQueue]
      cases q with
      | inject => exact ⟨rfl, List.prefix_append _ _⟩
      | _ => exact ⟨rfl, List.prefix_refl _⟩
    | laneOpRequested =>
      rw [logStep_row hrow, handleQueue]
      cases q with
      | laneOp => exact ⟨rfl, List.prefix_append _ _⟩
      | _ => exact ⟨rfl, List.prefix_refl _⟩
    | cardBuildRequested | cardBuildAttempted | cardBuildDone =>
      rw [logStep_row hrow, handleQueue]
      cases q <;> exact ⟨rfl, List.prefix_refl _⟩

/-! ## Every log -/

/-- The cursor stands in its queue. -/
def CursorWithin (q : Queue) (s : LogState) : Prop :=
  0 ≤ s.done q ∧ s.done q ≤ (s.requests q).length

/-- What one row does to a queue whose cursor stands in it. -/
structure QueueStep (q : Queue) (s s' : LogState) (e : Event) : Prop where
  within : CursorWithin q s'
  forward : s.done q ≤ s'.done q
  kept : s.requests q <+: s'.requests q
  passed : ∀ p, s.done q ≤ p → p < s'.done q → e.row = some q.receipt ∧
    ((∃ i, e.data.get "idx" = .int i ∧ p ≤ i) ∨
      ((∀ i, e.data.get "idx" ≠ .int i) ∧ s'.done q = s.done q + 1))

theorem advances_logStep (env : Env) (q : Queue) {s : LogState} (h : CursorWithin q s) (e : Event) :
    QueueStep q s (logStep env s e) e := by
  obtain ⟨h0, hle⟩ := h
  by_cases hrow : e.row = some q.receipt
  · rcases receipt_cases env s hrow with ⟨heq, -⟩ | heq
    · rw [heq]
      refine ⟨⟨h0, hle⟩, Int.le_refl _, List.prefix_refl _, ?_⟩
      intro p hp hlt
      omega
    · obtain ⟨hge, hlt⟩ := advance_within h0 hle (e.data.get "idx")
      rw [heq]
      constructor
      · unfold CursorWithin
        rw [LogState.done_setDone, LogState.requests_setDone]
        omega
      · rw [LogState.done_setDone]
        exact hge
      · apply prefix_of_eq
        exact (LogState.requests_setDone _ _ _ _).symm
      · intro p hp hpass
        rw [LogState.done_setDone] at hpass ⊢
        exact ⟨hrow, advance_passes h0 hle _ hp hpass⟩
  · obtain ⟨hdone, hreq⟩ := other_cases env q s hrow
    have hlen := hreq.length_le
    refine ⟨?_, Int.le_of_eq hdone.symm, hreq, ?_⟩
    · unfold CursorWithin
      rw [hdone]
      omega
    · intro p hp hlt
      omega

theorem cursorWithin_replayLog (env : Env) (q : Queue) (log : List Event) :
    CursorWithin q (replayLog env log) := by
  apply replayLog_invariant env
  · cases q <;> exact ⟨Int.le_refl 0, Int.le_refl 0⟩
  · intro s e h
    exact (advances_logStep env q h e).within

theorem serves_logStep (env : Env) {q : Queue} {s : LogState} (h : CursorWithin q s) {e : Event}
    {i : Int} (he : Serves q e i) :
    (i < (s.requests q).length → i < (logStep env s e).done q) ∧
      (i < s.done q → logStep env s e = s) := by
  obtain ⟨h0, hle⟩ := h
  have heq : logStep env s e =
      s.setDone q (advanceRequestCursor (s.done q) (s.requests q).length (.int i)) := by
    rcases receipt_cases env s he.row with ⟨-, hidx⟩ | heq
    · exact absurd he.idx (hidx i)
    · rwa [he.idx] at heq
  rw [heq]
  constructor
  · intro hi
    rw [LogState.done_setDone]
    exact advance_serves h0 hle hi
  · intro hi
    rw [advance_served h0 hle hi, LogState.setDone_self]

theorem advances_replayLog (env : Env) (q : Queue) (log tail : List Event) :
    (replayLog env log).done q ≤ (replayLog env (log ++ tail)).done q ∧
      (replayLog env log).requests q <+: (replayLog env (log ++ tail)).requests q := by
  induction tail using List.reverseRecOn with
  | nil =>
    rw [List.append_nil]
    exact ⟨Int.le_refl _, List.prefix_refl _⟩
  | append_singleton tail e ih =>
    rw [← List.append_assoc, replayLog_snoc]
    have hstep := advances_logStep env q (cursorWithin_replayLog env q (log ++ tail)) e
    exact ⟨Int.le_trans ih.1 hstep.forward, ih.2.trans hstep.kept⟩

theorem served_replayLog (env : Env) {q : Queue} {log : List Event} {e : Event} {i : Int}
    (he : Serves q e i) (hi : i < ((replayLog env log).requests q).length) (tail : List Event) :
    i < (replayLog env (log ++ e :: tail)).done q := by
  have hserve := (serves_logStep env (cursorWithin_replayLog env q log) he).1 hi
  rw [← replayLog_snoc] at hserve
  have hlater := (advances_replayLog env q (log ++ [e]) tail).1
  rw [List.append_assoc, List.singleton_append] at hlater
  omega

theorem done_of_queued {env : Env} {q : Queue} {s : LogState} {e : Event}
    (h : (s.requests q).length < ((logStep env s e).requests q).length) :
    (logStep env s e).done q = s.done q := by
  apply (other_cases env q s ?_).1
  intro hrow
  rcases receipt_cases env s hrow with ⟨heq, -⟩ | heq
  · rw [heq] at h
    omega
  · rw [heq, LogState.requests_setDone] at h
    omega

/-- After every log and for each queue: the cursor stands in the queue; the next row moves it only
forward, passes a request only as a receipt that names its position or a later one, or by one step
as a receipt that names none, and changes nothing as a receipt naming a position already passed. A
receipt of a queued position is served by its row, whatever follows, and coming again it changes
nothing; so a request queued next, which is never behind the cursor, is served by the first receipt
that names it. -/
theorem request_queues_in_order (env : Env) (q : Queue) (log : List Event) :
    CursorWithin q (replayLog env log) ∧
      (∀ e, QueueStep q (replayLog env log) (replayLog env (log ++ [e])) e) ∧
      (∀ e i, Serves q e i → i < (replayLog env log).done q →
        replayLog env (log ++ [e]) = replayLog env log) ∧
      (∀ e e' i tail, Serves q e i → Serves q e' i → i < ((replayLog env log).requests q).length →
        replayLog env (log ++ e :: tail ++ [e']) = replayLog env (log ++ e :: tail)) ∧
      ∀ e r tail, let i := ((replayLog env log).requests q).length
        i < ((replayLog env (log ++ [e])).requests q).length → Serves q r i →
          (replayLog env (log ++ [e])).done q ≤ i ∧
            (i : Int) < (replayLog env (log ++ e :: tail ++ [r])).done q := by
  have hwithin := cursorWithin_replayLog env q
  refine ⟨hwithin log, ?_, ?_, ?_, ?_⟩
  · intro e
    rw [replayLog_snoc]
    exact advances_logStep env q (hwithin log) e
  · intro e i he hi
    rw [replayLog_snoc]
    exact (serves_logStep env (hwithin log) he).2 hi
  · intro e e' i tail he he' hi
    rw [replayLog_snoc]
    exact (serves_logStep env (hwithin _) he').2 (served_replayLog env he hi tail)
  · intro e r tail i hqueued hr
    constructor
    · rw [replayLog_snoc] at hqueued ⊢
      rw [done_of_queued hqueued]
      exact (hwithin log).2
    · have hkept := (advances_replayLog env q (log ++ [e]) tail).2.length_le
      rw [List.append_assoc, List.singleton_append] at hkept
      rw [replayLog_snoc]
      apply (serves_logStep env (hwithin _) hr).1
      omega

/-- A receipt of a position past the end of the queue. -/
def orphanReceipt : Event := { type := "inject_done", data := [("idx", .int 5)] }

/-- A receipt of no queued position serves a request when it comes again after one was queued. -/
theorem orphan_receipt_counts :
    Serves .inject orphanReceipt 5 ∧
      replayLog Env.plain [orphanReceipt, { type := "inject_node" }, orphanReceipt] ≠
        replayLog Env.plain [orphanReceipt, { type := "inject_node" }] := by
  refine ⟨⟨by decide, rfl⟩, ?_⟩
  intro h
  have hdone := congrArg (fun s : LogState => s.queues.injectsDone) h
  revert hdone
  decide

end LoopLab
