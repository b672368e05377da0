import LoopLab.Lifecycles.Epochs

/-!
# The fold refines the lifecycle board

Every step of the fold is a run of board changes.
-/

set_option autoImplicit false

namespace LoopLab
open Lib Board

/-! ## What a row may rebuild and write -/

/-- Terminals, backfills, confirmations, holdout rows, judgements and eval starts. -/
def measuringTypes : List EventType :=
  [.nodeEvaluated, .nodeFailed, .nodeEvalStarted, .scoreMetricsBackfilled, .extraMetricsImported,
   .appliedParamsBackfilled, .nodeConfirmed, .holdoutEvaluated, .agentValidated,
   .nodeValueEstimated, .nodeVerified, .verifierGroupScored]

/-- The types whose stamp may also be spelled `attempt`. -/
def readsAttemptAlias (t : EventType) : Bool :=
  [EventType.nodeEvaluated, .nodeFailed, .nodeConfirmed, .holdoutEvaluated].contains t

/-- The rows of an event that name nodes: its own payload, or the members of a group. -/
def measurementRows (t : EventType) (d : Obj) : List Obj :=
  if t = .verifierGroupScored then ((d.get "members").arr?.getD []).filterMap Json.obj? else [d]

/-- A measurement row names `id` in its current lifecycle. -/
def MeasuresNode (st : RunState) (e : Event) (id : Int) : Prop :=
  ∃ t, e.kind = some t ∧ t ∈ measuringTypes ∧
    ∃ row ∈ measurementRows t e.data, ∃ n, st.nodeForEvent row = some n ∧ n.id = id ∧
      generationMatches n row (readsAttemptAlias t) = true

def RebuildsNode (env : Env) (st : RunState) (e : Event) (id : Int) : Prop :=
  e.kind = some .nodeCreated ∧ coerceNodeId e.data = some id ∧ (st.nodes.get id).isSome ∧
    (acceptedCreation env st e id).isSome

/-- The event is a stage row accepted for `n`. -/
structure AcceptsStageRow (st : RunState) (e : Event) (n : Node) : Prop where
  kind : e.kind = some .stageFinished
  named : st.nodeForEvent e.data = some n
  accepts : acceptsStage st n e.data = true

def renewingTypes : List EventType :=
  [.nodeCreated, .nodeTombstoned, .nodeReset, .nodeAbort, .resume, .runReopened]

def stepMay (env : Env) (st : RunState) (e : Event) : May Int where
  rebuilds := RebuildsNode env st e
  renews _ := ∃ t ∈ renewingTypes, e.kind = some t
  writes := MeasuresNode st e
  grows id := ∃ n, AcceptsStageRow st e n ∧ n.id = id

section Handlers
variable {pred : Int → Int} {may : May Int} {env : Env}

def MayWrite (may : May Int) (st : RunState) (d : Obj) (legacy : Bool) : Prop :=
  ∀ n, st.nodeForEvent d = some n → generationMatches n d legacy = true → may.writes n.id

/-! ## Rewriting one node -/

theorem SameLife.trans {a b c : Node} (h : SameLife a b) (h' : SameLife b c) : SameLife a c :=
  ⟨h'.id.trans h.id, h'.attempt.trans h.attempt, h'.phase.trans h.phase,
    h'.tombstoned.trans h.tombstoned, h'.ledger.trans h.ledger⟩

theorem sameLife_applyObjective (st : RunState) (n : Node) : SameLife n (applyObjective st n) := by
  unfold applyObjective
  split
  · exact ⟨rfl, rfl, rfl, rfl, rfl⟩
  · exact ⟨rfl, rfl, rfl, rfl, rfl⟩

theorem sameLife_dropStaleVerdict (st : RunState) {n n' : Node} (h : SameLife n n') :
    SameLife n (dropStaleVerdict env st n n') := by
  unfold dropStaleVerdict
  split
  · exact h
  · exact ⟨h.id, h.attempt, h.phase, h.tombstoned, h.ledger⟩

theorem Node.Fresh.applyObjective {n : Node} (st : RunState) (h : n.Fresh) :
    (applyObjective st n).Fresh := by
  have htask : n.taskMetric = .null := (congrArg Node.taskMetric h).symm
  have hprov : n.extraMetricsProvenance = Table.empty :=
    (congrArg Node.extraMetricsProvenance h).symm
  have hnull : (LoopLab.applyObjective st n).metric = .null := by
    unfold LoopLab.applyObjective
    split
    · rfl
    · cases st.objectiveKey with
      | none => exact htask
      | some key => simp [objectiveValue, hprov, Json.ofMetric]
  have hshape : LoopLab.applyObjective st n =
      { n with metric := (LoopLab.applyObjective st n).metric } := by
    unfold LoopLab.applyObjective
    split <;> rfl
  rw [hshape, hnull]
  exact congrArg (fun m : Node => { m with metric := .null }) h

theorem moves_named {c : FoldCore} {d : Obj} {n n' : Node} {legacy : Bool}
    (hn : c.st.nodeForEvent d = some n) (h : SameLife n n')
    (hw : MayWrite may c.st d legacy) (hm : generationMatches n d legacy = true) :
    Moves pred may c { c with st := c.st.setNode n' } :=
  moves_setNode (RunState.id_of_nodeForEvent hn).2 h (.inl (hw n hn hm))

/-! ## Building, creating and settling -/

theorem moves_nodeBuilding (env : Env) (s : FoldState) (e : Event) :
    Moves pred may s.toFoldCore (onNodeBuilding env s e).toFoldCore := by
  apply Moves.of_eq
  unfold onNodeBuilding
  dsimp only
  split
  · rfl
  · split
    · rfl
    · split <;> rfl

theorem moves_nodeCreated (s : FoldState) (e : Event) (hren : ∀ id, may.renews id)
    (hre : ∀ id, coerceNodeId e.data = some id → (s.st.nodes.get id).isSome →
      (acceptedCreation env s.st e id).isSome → may.rebuilds id) :
    Moves pred may s.toFoldCore (onNodeCreated env s e).toFoldCore := by
  unfold onNodeCreated
  split
  · exact .refl
  · rename_i nid hnid
    split
    · split <;> exact .refl
    · rename_i n hn
      have hcreate : Moves pred may s.toFoldCore
          { s.toFoldCore with st := s.st.setNode n } :=
        moves_create hn fun hold => hre nid hnid hold (by rw [hn]; rfl)
      dsimp only
      split
      · exact hcreate
      · exact (hcreate.trans (moves_invalidateHoldout _ [nid] hren)).trans (moves_certificates _)

theorem evaluatedNode_life (env : Env) (st : RunState) (e : Event) (n : Node) :
    (evaluatedNode env st e n).id = n.id ∧ (evaluatedNode env st e n).attempt = n.attempt ∧
      (evaluatedNode env st e n).status = .evaluated ∧
      (evaluatedNode env st e n).tombstoned = n.tombstoned ∧
      (evaluatedNode env st e n).stageAttempts = n.stageAttempts := by
  unfold evaluatedNode applyObjective
  dsimp only
  split <;> exact ⟨rfl, rfl, rfl, rfl, rfl⟩

theorem attemptMatches_iff {n : Node} {d : Obj} :
    attemptMatches n d = true ↔ terminalGeneration d = some n.attempt := by
  unfold attemptMatches
  exact beq_iff_eq

theorem generationMatches_of_attemptMatches {n : Node} {d : Obj} (h : attemptMatches n d = true) :
    generationMatches n d true = true := by
  have ht := attemptMatches_iff.mp h
  unfold generationMatches eventGenerationBinds
  unfold terminalGeneration at ht
  split at ht
  · rfl
  · cases ht
  · simpa using ht

theorem moves_terminal {c c' : FoldCore} {d : Obj} (n n' : Node)
    (hget : c.st.nodes.get n.id = some n) (hpend : n.status = .pending)
    (hmatch : attemptMatches n d = true)
    (hlife : n'.id = n.id ∧ n'.attempt = n.attempt ∧ n'.tombstoned = n.tombstoned ∧
      n'.stageAttempts = n.stageAttempts)
    (hnew : n'.status ≠ .pending) (hw : may.writes n.id)
    (hc' : boardOf c' = { boardOf (chargeTerminalCost c n d) with
      lives := (boardOf (chargeTerminalCost c n d)).lives.put (lifeOf n')
      failures := (boardOf (chargeTerminalCost c n d)).addFailure (lifeOf n') }) :
    Moves pred may c c' := by
  obtain ⟨hid, hatt, htomb, hled⟩ := hlife
  refine (moves_chargeTerminal c n d).trans ?_
  exact moves_settle (by rw [nodes_chargeTerminal]; exact hget) hpend hid hatt htomb hled hnew hw
    (charged_chargeTerminal c (attemptMatches_iff.mp hmatch) le_rfl) hc'

theorem moves_nodeEvaluated (s : FoldState) (e : Event)
    (hw : MayWrite may s.st e.data true) :
    Moves pred may s.toFoldCore (onNodeEvaluated env s e).toFoldCore := by
  unfold onNodeEvaluated
  split
  · exact .refl
  · rename_i n hn
    split
    · exact moves_chargeTerminal _ n e.data
    · rename_i hguard
      split
      · exact .refl
      · rename_i hpend
        simp only [Bool.or_eq_true, not_or, Bool.not_eq_true', Bool.not_eq_false] at hguard
        obtain ⟨hid, hatt, hst, htomb, hled⟩ := evaluatedNode_life env s.st e n
        refine moves_terminal n (evaluatedNode env s.st e n) (RunState.id_of_nodeForEvent hn).2
          (by simpa using hpend) hguard.2
          ⟨hid, hatt, htomb, hled⟩ (by rw [hst]; exact nofun)
          (hw n hn (generationMatches_of_attemptMatches hguard.2)) ?_
        dsimp only
        rw [chargeTerminal_setNode s.toFoldCore n _ e.data hid hatt, boardOf_setNode]
        have hnot : counts (boardOf (chargeTerminalCost s.toFoldCore n e.data)).aborted
            (lifeOf (evaluatedNode env s.st e n)) = false :=
          counts_of_not_failed (by rw [show (lifeOf _).phase = _ from phaseOf_done.mpr hst]; exact nofun)
        unfold addFailure
        rw [hnot]
        rfl

theorem boardOf_addCurrentFailure (c : FoldCore) (n : Node) (e : Event) :
    boardOf { c with st := addCurrentFailure c.st n e } =
      { boardOf c with failures := (boardOf c).addFailure (lifeOf n) } := by
  have hcounts : counts (boardOf c).aborted (lifeOf n) = countsAsCurrentFailure c.st n :=
    counts_lifeOf c.st n
  unfold addCurrentFailure addFailure
  rw [hcounts]
  cases countsAsCurrentFailure c.st n <;> rfl

theorem moves_nodeFailed (c : FoldCore) (e : Event) (hw : MayWrite may c.st e.data true) :
    Moves pred may c (settleFailed env c e) := by
  unfold settleFailed
  split
  · exact .refl
  · rename_i n hn
    split
    · exact moves_chargeTerminal c n e.data
    · rename_i hguard
      split
      · exact .refl
      · rename_i hpend
        simp only [Bool.or_eq_true, not_or, Bool.not_eq_true', Bool.not_eq_false] at hguard
        refine moves_terminal n (failedNode env e n) (RunState.id_of_nodeForEvent hn).2
          (by simpa using hpend) hguard.2 ⟨rfl, rfl, rfl, rfl⟩ nofun
          (hw n hn (generationMatches_of_attemptMatches hguard.2)) ?_
        dsimp only
        rw [chargeTerminal_setNode c n (failedNode env e n) e.data rfl rfl,
          boardOf_addCurrentFailure, boardOf_setNode]
        rfl

theorem moves_nodeEvalStarted (c : FoldCore) (e : Event)
    (hw : MayWrite may c.st e.data false) :
    Moves pred may c { c with st := onNodeEvalStarted c.st e } := by
  unfold onNodeEvalStarted
  split
  · exact .refl
  · rename_i n hn
    split
    · exact .refl
    · rename_i hm
      exact moves_named hn ⟨rfl, rfl, rfl, rfl, rfl⟩ hw (by simpa using hm)

theorem boardOf_recordRepairLedger (c : FoldCore) (d : Obj) :
    boardOf (recordRepairLedger c d) = boardOf c ∧ (recordRepairLedger c d).st.nodes = c.st.nodes := by
  unfold recordRepairLedger
  split
  · dsimp only
    split
    · exact ⟨rfl, rfl⟩
    · split
      · exact ⟨rfl, rfl⟩
      · split <;> exact ⟨rfl, rfl⟩
  · exact ⟨rfl, rfl⟩

theorem moves_nodeOverlayRebased (c : FoldCore) (e : Event) :
    Moves pred may c { c with st := onNodeOverlayRebased c.st e } := by
  unfold onNodeOverlayRebased
  split
  · rename_i n files deleted hn _ _
    split
    · refine moves_setNode (RunState.id_of_nodeForEvent hn).2
        ⟨rfl, rfl, rfl, rfl, rfl⟩ (.inr fun h => ?_)
      exact congrArg (fun m : Node => { m with files := .obj files, deleted := .arr deleted }) h
    · exact .refl
  · exact .refl

theorem sameLife_repairedNode {n : Node} (d : Obj) (seen : Bool) :
    SameLife n (repairedNode env n d seen) := ⟨rfl, rfl, rfl, rfl, rfl⟩

theorem Node.Fresh.repairedNode {n : Node} (d : Obj) (seen : Bool) (h : n.Fresh) :
    (repairedNode env n d seen).Fresh := by
  unfold LoopLab.repairedNode
  generalize d.getD "code" n.code = code
  generalize (if (d.get "files").truthy then d.get "files" else n.files) = files
  generalize (if (d.get "deleted").truthy then d.get "deleted" else n.deleted) = deleted
  generalize (if seen then n.repairs else chargedRepairs env n d) = repairs
  exact congrArg (fun m : Node =>
    { m with code := code, files := files, deleted := deleted, repairs := repairs }) h

theorem moves_nodeRepaired (c : FoldCore) (e : Event) :
    Moves pred may c (onNodeRepaired env c e) := by
  obtain ⟨hboard, -⟩ := boardOf_recordRepairLedger c e.data
  refine (Moves.of_eq hboard).trans ?_
  unfold onNodeRepaired
  dsimp only
  generalize recordRepairLedger c e.data = c
  split
  · exact .refl
  · rename_i n hn
    split
    · exact .refl
    · have hset (seen : Bool) : Moves pred may c
          { c with st := c.st.setNode (repairedNode env n e.data seen) } :=
        moves_setNode (RunState.id_of_nodeForEvent hn).2 (sameLife_repairedNode e.data seen)
          (.inr (Node.Fresh.repairedNode e.data seen))
      refine (hset (c.ctx.chargedRepairSeqs.contains (n.id, e.seq))).trans (Moves.of_eq ?_)
      split <;> rfl

/-! ## Backfills and stages -/

theorem measuredNode_spec {st : RunState} {d : Obj} {n : Node} (h : measuredNode st d = some n) :
    st.nodeForEvent d = some n ∧ generationMatches n d = true := by
  obtain ⟨hn, hg⟩ := Option.filter_eq_some_iff.mp h
  exact ⟨hn, (Bool.and_eq_true_iff.mp hg).2⟩

theorem sameLife_backfilled (st : RunState) (n : Node) (found : Dict String Rat) (d : Obj) :
    SameLife n (applyObjective st (backfilledNode n found d)) ∧
      SameLife n (applyObjective st (backfillBesideImports n found d)) :=
  ⟨SameLife.trans (b := backfilledNode n found d) ⟨rfl, rfl, rfl, rfl, rfl⟩
      (sameLife_applyObjective st _),
    SameLife.trans (b := backfillBesideImports n found d) ⟨rfl, rfl, rfl, rfl, rfl⟩
      (sameLife_applyObjective st _)⟩

theorem sameLife_imported (st : RunState) (n : Node) (added : List (String × Rat)) (d : Obj) :
    SameLife n (applyObjective st (importedNode n added d)) :=
  SameLife.trans (b := importedNode n added d) ⟨rfl, rfl, rfl, rfl, rfl⟩
    (sameLife_applyObjective st _)

theorem moves_scoreMetricsBackfilled (c : FoldCore) (e : Event)
    (hw : MayWrite may c.st e.data false) :
    Moves pred may c { c with st := onScoreMetricsBackfilled c.st e } := by
  unfold onScoreMetricsBackfilled
  dsimp only
  split
  · rename_i n kv rest hn _
    obtain ⟨hn, hg⟩ := measuredNode_spec hn
    split
    · exact moves_named hn (sameLife_backfilled c.st n _ e.data).2 hw hg
    · split
      · exact .refl
      · exact moves_named hn (sameLife_backfilled c.st n _ e.data).1 hw hg
  · exact .refl

theorem moves_extraMetricsImported (c : FoldCore) (e : Event)
    (hw : MayWrite may c.st e.data false) :
    Moves pred may c { c with st := onExtraMetricsImported c.st e } := by
  unfold onExtraMetricsImported
  dsimp only
  split
  · exact .refl
  · rename_i n hn
    obtain ⟨hn, hg⟩ := measuredNode_spec hn
    split
    · exact .refl
    · exact moves_named hn (sameLife_imported c.st n _ e.data) hw hg

theorem moves_appliedParamsBackfilled (c : FoldCore) (e : Event)
    (hw : MayWrite may c.st e.data false) :
    Moves pred may c { c with st := onAppliedParamsBackfilled env c.st e } := by
  unfold onAppliedParamsBackfilled
  split
  · rename_i n stamped hn _
    split
    · exact .refl
    · split
      · exact .refl
      · rename_i hguard
        simp only [Bool.or_eq_true, not_or, Bool.not_eq_true', Bool.not_eq_false] at hguard
        exact moves_named hn ⟨rfl, rfl, rfl, rfl, rfl⟩ hw hguard.1
  · exact .refl

theorem stagedNode_fresh {n : Node} (e : Event) (h : n.Fresh) : (stagedNode n e).Fresh := by
  unfold stagedNode
  dsimp only
  generalize putStage (stageRow n e.data) n.stages = stages
  generalize n.stageAttempts ++ _ = attempts
  exact congrArg (fun m : Node => { m with stageAttempts := attempts, stages := stages }) h

theorem moves_stageFinished (c : FoldCore) (e : Event)
    (hg : ∀ n, c.st.nodeForEvent e.data = some n → acceptsStage c.st n e.data = true →
      may.grows n.id) :
    Moves pred may c { c with st := onStageFinished c.st e } := by
  unfold onStageFinished
  split
  · exact .refl
  · rename_i n hn
    split
    · rename_i hacc
      have hget : (boardOf c).lives.get n.id = some (lifeOf n) := by
        rw [get_boardOf, (RunState.id_of_nodeForEvent hn).2]
        rfl
      exact Moves.of_step (boardOf_setNode c (stagedNode n e)) (.touch _ (lifeOf n) _ hget
        ⟨rfl, rfl, rfl, rfl, .inr ⟨hg n hn hacc, List.prefix_append _ _⟩,
          .inr (stagedNode_fresh e)⟩)
    · exact .refl

/-! ## Evidence -/

theorem mem_of_mapM {α β : Type} {f : α → Option β} {xs : List α} {ys : List β}
    (h : xs.mapM f = some ys) {y : β} (hy : y ∈ ys) : ∃ x ∈ xs, f x = some y := by
  induction xs generalizing ys with
  | nil =>
    cases h
    cases hy
  | cons x xs ih =>
    simp only [List.mapM_cons, Option.bind_eq_bind, Option.bind_eq_some_iff] at h
    obtain ⟨z, hz, zs, hzs, h⟩ := h
    cases h
    rcases List.mem_cons.mp hy with rfl | hm
    · exact ⟨x, by simp, hz⟩
    · obtain ⟨w, hw, hfw⟩ := ih hzs hm
      exact ⟨w, by simp [hw], hfw⟩

theorem moves_chargeConfirm (c : FoldCore) (n : Node) (seed : Int) (d : Obj) :
    Moves pred may c (chargeConfirm c n seed d) := by
  unfold chargeConfirm
  dsimp only
  split
  · exact .refl
  · split
    · exact .refl
    · exact (moves_charge c .confirm (d.get "eval_seconds")).trans (Moves.of_eq rfl)

theorem moves_confirmEval (c : FoldCore) (e : Event) :
    Moves pred may c (onConfirmEval c e) := by
  unfold onConfirmEval
  dsimp only
  split
  · exact .refl
  · rename_i n hn
    split
    · exact .refl
    · split
      · exact .refl
      · rename_i seed _
        have hcharge : Moves pred may c (chargeConfirm c n seed e.data) :=
          moves_chargeConfirm c n seed e.data
        split
        · exact hcharge
        · split
          · exact hcharge
          · split
            · exact hcharge
            · exact hcharge.trans (Moves.of_eq rfl)

theorem moves_nodeConfirmed (c : FoldCore) (e : Event) (hw : MayWrite may c.st e.data true) :
    Moves pred may c { c with st := onNodeConfirmed env c.st e } := by
  unfold onNodeConfirmed
  dsimp only
  split
  · exact .refl
  · rename_i n hn
    split
    · exact .refl
    · split
      · exact .refl
      · rename_i hguard
        simp only [Bool.or_eq_true, not_or, Bool.not_eq_true', Bool.not_eq_false] at hguard
        split
        · split
          · exact .refl
          · exact moves_named hn
              (sameLife_dropStaleVerdict c.st ⟨rfl, rfl, rfl, rfl, rfl⟩) hw hguard.2
        · exact .refl

theorem moves_evalNoiseSeed (c : FoldCore) (e : Event) :
    Moves pred may c (onEvalNoiseSeed c e) := by
  unfold onEvalNoiseSeed
  dsimp only
  split
  · rename_i nid seed _ _
    have hcharge : Moves pred may c
        (if c.ctx.chargedNoiseSeeds.contains
            (nid, noiseGeneration (c.st.nodes.get nid) e.data, seed) then c
          else
            { st := chargeEvalSeconds c.st .noise (e.data.get "eval_seconds")
              ctx := { c.ctx with chargedNoiseSeeds :=
                (nid, noiseGeneration (c.st.nodes.get nid) e.data, seed)
                  :: c.ctx.chargedNoiseSeeds } }) := by
      split
      · exact .refl
      · exact (moves_charge c .noise (e.data.get "eval_seconds")).trans (Moves.of_eq rfl)
    split
    · exact hcharge
    · split
      · exact hcharge
      · exact hcharge.trans (Moves.of_eq rfl)
  · exact .refl

theorem moves_chargeHoldout (c : FoldCore) (nid : Int) (d : Obj) :
    Moves pred may c (chargeHoldout c nid d) := by
  unfold chargeHoldout
  dsimp only
  split
  · exact .refl
  · exact (moves_charge c .holdout (d.get "eval_seconds")).trans (Moves.of_eq rfl)

theorem nodes_chargeHoldout (c : FoldCore) (nid : Int) (d : Obj) :
    (chargeHoldout c nid d).st.nodes = c.st.nodes := by
  unfold chargeHoldout
  dsimp only
  split <;> rfl

theorem moves_holdoutEvaluated (c : FoldCore) (e : Event) (hw : MayWrite may c.st e.data true) :
    Moves pred may c (onHoldoutEvaluated env c e) := by
  unfold onHoldoutEvaluated
  dsimp only
  split
  · exact .refl
  · rename_i nid hnid
    refine (moves_chargeHoldout c nid e.data).trans ?_
    have hsame := nodes_chargeHoldout c nid e.data
    generalize chargeHoldout c nid e.data = c' at hsame
    split
    · exact .refl
    · rename_i n hget
      rw [hsame] at hget
      have hn : c.st.nodeForEvent e.data = some n := Option.bind_eq_some_iff.mpr ⟨nid, hnid, hget⟩
      have hn' : (discloseHoldout c'.st nid e.data).nodeForEvent e.data = some n := by
        unfold RunState.nodeForEvent
        show (coerceNodeId e.data).bind c'.st.nodes.get = some n
        rw [hsame]
        exact hn
      split
      · exact .refl
      · rename_i hguard
        simp only [Bool.or_eq_true, not_or, Bool.not_eq_true', Bool.not_eq_false] at hguard
        split
        · exact .refl
        · split
          · exact Moves.of_eq rfl
          · have hdisclose : Moves pred may c'
                { c' with st := discloseHoldout c'.st nid e.data } := Moves.of_eq rfl
            refine hdisclose.trans ?_
            exact moves_setNode (c := { c' with st := discloseHoldout c'.st nid e.data })
              (RunState.id_of_nodeForEvent hn').2
              (sameLife_dropStaleVerdict _ ⟨rfl, rfl, rfl, rfl, rfl⟩)
              (.inl (hw n hn hguard.2))

theorem moves_agentValidated (c : FoldCore) (e : Event) (hw : MayWrite may c.st e.data false) :
    Moves pred may c { c with st := onAgentValidated c.st e } := by
  unfold onAgentValidated
  dsimp only
  split
  · exact .refl
  · rename_i n hn
    split
    · exact .refl
    · rename_i hguard
      simp only [Bool.or_eq_true, not_or, Bool.not_eq_true', Bool.not_eq_false] at hguard
      exact moves_named hn ⟨rfl, rfl, rfl, rfl, rfl⟩ hw hguard.2

theorem generationMatches_of_stampedFor {n : Node} {d : Obj} (h : stampedFor n d = true) :
    generationMatches n d = true := (Bool.and_eq_true_iff.mp h).2

theorem moves_nodeValueEstimated (c : FoldCore) (e : Event)
    (hw : MayWrite may c.st e.data false) :
    Moves pred may c { c with st := onNodeValueEstimated c.st e } := by
  unfold onNodeValueEstimated
  split
  · exact .refl
  · rename_i n hn
    split
    · exact .refl
    · rename_i hguard
      simp only [Bool.or_eq_true, not_or, Bool.not_eq_true', Bool.not_eq_false] at hguard
      split
      · exact moves_named hn ⟨rfl, rfl, rfl, rfl, rfl⟩ hw
          (generationMatches_of_stampedFor hguard.2)
      · exact .refl

theorem sameLife_judgedNode (st : RunState) (n : Node) (score : Rat) :
    SameLife n (judgedNode env st n score) := ⟨rfl, rfl, rfl, rfl, rfl⟩

theorem moves_nodeVerified (c : FoldCore) (e : Event) (hw : MayWrite may c.st e.data false) :
    Moves pred may c { c with st := onNodeVerified env c.st e } := by
  unfold onNodeVerified
  dsimp only
  split
  · exact .refl
  · rename_i n hn
    split
    · exact .refl
    · rename_i hguard
      simp only [Bool.or_eq_true, not_or, Bool.not_eq_true', Bool.not_eq_false] at hguard
      split
      · exact .refl
      · split
        · exact moves_named hn (sameLife_judgedNode c.st n _) hw
            (generationMatches_of_stampedFor hguard.2)
        · exact .refl

theorem groupMember_spec {st : RunState} {requested : Int} {row : Json} {member : Int × Rat}
    (h : groupMember env st requested row = some member) :
    ∃ d n, row.obj? = some d ∧ st.nodeForEvent d = some n ∧ n.id = member.1 ∧
      generationMatches n d = true := by
  unfold groupMember at h
  simp only [Option.bind_eq_bind, Option.bind_eq_some_iff] at h
  obtain ⟨d, hd, n, hn, h⟩ := h
  split at h
  · cases h
  · rename_i hguard
    simp only [Bool.or_eq_true, not_or, Bool.not_eq_true', Bool.not_eq_false] at hguard
    simp only [Option.bind_eq_some_iff] at h
    obtain ⟨_, -, h⟩ := h
    split at h
    · cases h
    · simp only [Option.bind_eq_some_iff] at h
      obtain ⟨score, -, samples, -, h⟩ := h
      split at h
      · cases h
      · simp only [Option.bind_eq_some_iff] at h
        obtain ⟨_, -, h⟩ := h
        split at h
        · cases h
        · simp only [Option.bind_eq_some_iff] at h
          obtain ⟨_, -, h⟩ := h
          split at h
          · cases h
          · cases h
            exact ⟨d, n, hd, hn, rfl, generationMatches_of_stampedFor hguard.2⟩

theorem moves_judge (c : FoldCore) (member : Int × Rat) (hw : may.writes member.1) :
    Moves pred may c { c with st := judge env c.st member } := by
  unfold judge
  split
  · rename_i n hget
    have hid := Table.key_of_get hget
    rw [← hid] at hget hw
    exact moves_setNode hget (sameLife_judgedNode c.st n _) (.inl hw)
  · exact .refl

theorem moves_judges (c : FoldCore) (members : List (Int × Rat))
    (hw : ∀ m ∈ members, may.writes m.1) :
    Moves pred may c { c with st := members.foldl (judge env) c.st } := by
  induction members generalizing c with
  | nil => exact .refl
  | cons m ms ih =>
    have hone : Moves pred may c { c with st := judge env c.st m } :=
      moves_judge c m (hw m (by simp))
    refine hone.trans ?_
    exact ih { c with st := judge env c.st m } fun m' hm' => hw m' (by simp [hm'])

theorem moves_verifierGroupScored (c : FoldCore) (e : Event)
    (hw : ∀ row ∈ measurementRows .verifierGroupScored e.data, MayWrite may c.st row false) :
    Moves pred may c { c with st := onVerifierGroupScored env c.st e } := by
  unfold onVerifierGroupScored
  dsimp only
  split
  · exact .refl
  · split
    · rename_i requested members _ hmembers
      split
      · exact .refl
      · split
        · exact .refl
        · rename_i staged hstaged
          split
          · exact .refl
          · refine moves_judges c staged fun m hm => ?_
            obtain ⟨row, hrow, hmember⟩ := mem_of_mapM hstaged hm
            obtain ⟨d, n, hd, hn, hid, hg⟩ := groupMember_spec hmember
            rw [← hid]
            refine hw d ?_ n hn hg
            simp only [measurementRows, if_true, hmembers]
            exact List.mem_filterMap.mpr ⟨row, hrow, hd⟩
    · exact .refl

end Handlers

end LoopLab
