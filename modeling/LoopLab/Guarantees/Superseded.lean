import LoopLab.Lifecycles.Renewals

/-!
# Rows of a superseded lifecycle

A row whose stamp does not name the current lifecycle of its node may charge the seconds it cost and leave an audit
row; the state is otherwise the one before it.
-/

set_option autoImplicit false

namespace LoopLab
open Lib Board

/-- The types that act on one lifecycle of one node. -/
def lifecycleTypes : List EventType :=
  [.nodeBuilding, .nodeCreated, .nodeEvalStarted, .nodeEvaluated, .nodeFailed, .nodeRepaired,
   .nodeOverlayRebased, .stageFinished, .confirmEval, .nodeConfirmed, .evalNoiseSeed,
   .holdoutEvaluated, .nodeVerified, .nodeValueEstimated, .agentValidated, .proxyScored,
   .appliedParamsBackfilled, .scoreMetricsBackfilled, .extraMetricsImported, .forceConfirm,
   .forceAblate, .fork, .promote, .nodeAbort, .nodeReset, .pause, .approvalRequested,
   .approvalGranted]

/-- The field a row names its node in. -/
def nodeKey (t : EventType) : String := if t = .fork then "from_node_id" else "node_id"

/-- The row names node `n` and is stamped, but not with the lifecycle `n` is in. -/
structure SupersededRow (st : RunState) (e : Event) (t : EventType) (n : Node) : Prop where
  kind : e.kind = some t
  covered : t ∈ lifecycleTypes
  named : (coerceNodeId e.data (nodeKey t)).bind st.nodes.get = some n
  stamped : e.data.has "generation" = true
  stale : (e.data.get "generation").coerceInt ≠ some (n.attempt : Int)

/-- Nothing moved but charges, audit rows appended and, where the row is a pause, a drain of the
builds called off; markers of the node's current lifecycle stand. -/
structure Inert (s s' : FoldState) (e : Event) (n : Node) : Prop where
  state : s'.st = { s.st with
    totalEvalSeconds := s'.st.totalEvalSeconds
    evalSecondsByKind := s'.st.evalSecondsByKind
    repairLedger := s'.st.repairLedger
    repairLedgerOmitted := s'.st.repairLedgerOmitted
    pauseDrainBuilds := s'.st.pauseDrainBuilds }
  audit : s.st.repairLedger <+: s'.st.repairLedger
  drain : s'.st.pauseDrainBuilds = s.st.pauseDrainBuilds ∨
    (e.kind = some .pause ∧ s'.st.pauseDrainBuilds = false)
  building : ∀ m, s.marks.building = some m → m.generation = some n.attempt →
    s'.marks.building = some m
  buildings : ∀ m, s.marks.buildings.get n.id = some m → m.generation = some n.attempt →
    s'.marks.buildings.get n.id = some m

/-- The memo a noise row would write, seen from the node and seed it names. -/
def noiseMemo (st : RunState) (d : Obj) : Option (Option Rat) := do
  let nid ← coerceNodeId d
  let seed ← seedOf d
  (← st.evalNoiseSeedResults.get nid).get seed

/-- A noise seed stamped with something other than an integer, whose metric the memo does not hold
already. -/
def ForgesNoiseSeed (st : RunState) (e : Event) : Prop :=
  e.kind = some .evalNoiseSeed ∧ (e.data.get "generation").int? = none ∧
    (seedOf e.data).isSome ∧ noiseMemo st e.data ≠ some (e.data.get "metric").finiteMetric

/-! ## Stale stamps -/

structure StaleStamp (n : Node) (d : Obj) : Prop where
  present : ∀ legacy, eventGeneration d legacy ≠ .missing
  stale : ∀ legacy, eventGeneration d legacy ≠ .at n.attempt

theorem SupersededRow.staleStamp {st : RunState} {e : Event} {t : EventType} {n : Node}
    (h : SupersededRow st e t n) : StaleStamp n e.data := by
  have hread (legacy : Bool) :
      eventGeneration e.data legacy = stampOf (e.data.get "generation") := by
    unfold eventGeneration
    rw [if_pos h.stamped]
  have hstale := h.stale
  refine ⟨fun legacy => ?_, fun legacy => ?_⟩
  · rw [hread]
    unfold stampOf
    split
    · split <;> exact nofun
    · exact nofun
  · rw [hread]
    unfold stampOf
    split
    · rename_i i hi
      split
      · intro heq
        have : i.toNat = n.attempt := Stamp.at.inj heq
        exact hstale (by rw [hi, ← this]; congr 1; omega)
      · exact nofun
    · exact nofun

namespace StaleStamp
variable {n : Node} {d : Obj} (h : StaleStamp n d)
include h

theorem generationMatches (legacy : Bool) : generationMatches n d legacy = false := by
  unfold LoopLab.generationMatches eventGenerationBinds
  split
  · rename_i hm
    exact absurd hm (h.present legacy)
  · rfl
  · rename_i g hg
    have := h.stale legacy
    rw [hg] at this
    simpa using this

theorem controlGenerationMatches : controlGenerationMatches n d = false := by
  unfold LoopLab.controlGenerationMatches
  split
  · rename_i hm
    exact absurd hm (h.present false)
  · rfl
  · rename_i g hg
    have := h.stale false
    rw [hg] at this
    simpa using this

theorem attemptMatches : attemptMatches n d = false := by
  unfold LoopLab.attemptMatches terminalGeneration
  split
  · rename_i hm
    exact absurd hm (h.present true)
  · rfl
  · rename_i g hg
    have := h.stale true
    rw [hg] at this
    simpa using this

theorem creationGeneration : creationGeneration (some n) d = none := by
  unfold LoopLab.creationGeneration
  split
  · rename_i hm _
    exact absurd hm (h.present false)
  · rename_i hm _
    exact absurd hm (h.present false)
  · rfl
  · rename_i g m hg hm
    cases hm
    rw [if_neg]
    intro heq
    exact h.stale false (heq ▸ hg)
  · rename_i hm
    cases hm

theorem stampedFor : stampedFor n d = false := by
  unfold LoopLab.stampedFor
  rw [h.generationMatches, Bool.and_false]

theorem controllable (st : RunState) : controllable st n d = false := by
  unfold LoopLab.controllable
  rw [h.controlGenerationMatches, Bool.and_false]

theorem matchesEvent {m : Marker} (hm : m.generation = some n.attempt) (nid : Int) :
    m.matchesEvent d nid = false := by
  unfold Marker.matchesEvent
  rw [hm]
  have : (eventGeneration d true == .at n.attempt) = false := by
    simpa using h.stale true
  simp [this]

end StaleStamp

/-! ## Inert steps -/

def Charged (st st' : RunState) : Prop := ∃ total byKind,
  st' = { st with totalEvalSeconds := total, evalSecondsByKind := byKind }

theorem Charged.refl (st : RunState) : Charged st st := ⟨_, _, rfl⟩

theorem charged_chargeEvalSeconds (st : RunState) (kind : CostKind) (raw : Json) :
    Charged st (chargeEvalSeconds st kind raw) := ⟨_, _, rfl⟩

theorem charged_chargeTerminalCost (c : FoldCore) (n : Node) (d : Obj) :
    Charged c.st (chargeTerminalCost c n d).st := by
  unfold chargeTerminalCost
  split
  · exact .refl _
  · split
    · exact .refl _
    · split
      · exact .refl _
      · exact charged_chargeEvalSeconds _ _ _

theorem inert_of_charged {s s' : FoldState} {e : Event} {n : Node} (hs : StaleStamp n e.data)
    (hst : Charged s.st s'.st) (hm : s'.marks = s.marks ∨ s'.marks = s.marks.clear e.data n.id) :
    Inert s s' e n := by
  obtain ⟨total, byKind, heq⟩ := hst
  refine ⟨by rw [heq], by rw [heq], .inl (by rw [heq]), fun m hb hg => ?_,
    fun m hb hg => ?_⟩
  · rcases hm with hm | hm
    · rw [hm]
      exact hb
    · rw [hm]
      unfold Marks.clear
      rw [hb]
      simp [Option.filter, hs.matchesEvent hg]
  · rcases hm with hm | hm
    · rw [hm]
      exact hb
    · rw [hm]
      unfold Marks.clear
      dsimp only
      rw [hb, if_neg (by simp [hs.matchesEvent hg])]
      exact hb

theorem inert_lift {s : FoldState} {f : RunState → Event → RunState} {e : Event} {n : Node}
    (hs : StaleStamp n e.data) (hf : f s.st e = s.st) : Inert s (s.lift f e) e n :=
  inert_of_charged hs (show Charged s.st (f s.st e) by rw [hf]; exact .refl _) (.inl rfl)

/-! ## The handlers -/

theorem isNull_of_named {st : RunState} {d : Obj} {n : Node} (hn : st.nodeForEvent d = some n) :
    (d.get "node_id").isNull = false := by
  have hid := (RunState.id_of_nodeForEvent hn).1
  unfold coerceNodeId at hid
  cases hraw : d.get "node_id" with
  | null =>
    rw [hraw] at hid
    cases hid
  | _ => rfl

section Handlers
variable {env : Env} {s : FoldState} {e : Event} {n : Node}

theorem superseded_nodeBuilding (env : Env) (hn : s.st.nodeForEvent e.data = some n)
    (hs : StaleStamp n e.data) : Inert s (onNodeBuilding env s e) e n := by
  obtain ⟨hid, hget⟩ := RunState.id_of_nodeForEvent hn
  unfold onNodeBuilding
  dsimp only
  rw [hid]
  dsimp only
  rw [hget]
  split
  · exact inert_of_charged hs (.refl _) (.inr rfl)
  · rw [if_pos (by simp [hs.generationMatches])]
    exact inert_of_charged hs (.refl _) (.inl rfl)

theorem superseded_nodeCreated (hn : s.st.nodeForEvent e.data = some n)
    (hs : StaleStamp n e.data) : Inert s (onNodeCreated env s e) e n := by
  obtain ⟨hid, hget⟩ := RunState.id_of_nodeForEvent hn
  have hnone : acceptedCreation env s.st e n.id = none := by
    unfold acceptedCreation
    dsimp only
    rw [hget, hs.creationGeneration]
    split
    · rfl
    · split <;> rfl
  unfold onNodeCreated
  rw [hid]
  dsimp only
  rw [hnone]
  dsimp only
  split
  · exact inert_of_charged hs (.refl _) (.inr rfl)
  · exact inert_of_charged hs (.refl _) (.inl rfl)

theorem superseded_nodeEvaluated (hn : s.st.nodeForEvent e.data = some n)
    (hs : StaleStamp n e.data) : Inert s (onNodeEvaluated env s e) e n := by
  unfold onNodeEvaluated
  rw [hn]
  dsimp only
  rw [if_pos (by simp [hs.attemptMatches])]
  exact inert_of_charged hs (charged_chargeTerminalCost _ _ _) (.inl rfl)

theorem superseded_nodeFailed (hn : s.st.nodeForEvent e.data = some n)
    (hs : StaleStamp n e.data) : Inert s (onNodeFailed env s e) e n := by
  have hcore : settleFailed env s.toFoldCore e = chargeTerminalCost s.toFoldCore n e.data := by
    unfold settleFailed
    rw [hn]
    dsimp only
    rw [if_pos (by simp [hs.attemptMatches])]
  refine inert_of_charged hs ?_ (.inr ?_)
  · rw [congrArg FoldCore.st (core_onNodeFailed s), hcore]
    exact charged_chargeTerminalCost _ _ _
  · unfold onNodeFailed
    rw [(RunState.id_of_nodeForEvent hn).1]
    rfl

theorem superseded_nodeRepaired (hn : s.st.nodeForEvent e.data = some n)
    (hs : StaleStamp n e.data) : Inert s (s.liftCore (onNodeRepaired env) e) e n := by
  have hstate : (recordRepairLedger s.toFoldCore e.data).st = { s.st with
      repairLedger := (recordRepairLedger s.toFoldCore e.data).st.repairLedger
      repairLedgerOmitted := (recordRepairLedger s.toFoldCore e.data).st.repairLedgerOmitted } ∧
      s.st.repairLedger <+: (recordRepairLedger s.toFoldCore e.data).st.repairLedger := by
    unfold recordRepairLedger
    split
    · dsimp only
      split
      · exact ⟨rfl, List.prefix_refl _⟩
      · split
        · exact ⟨rfl, List.prefix_refl _⟩
        · split
          · exact ⟨rfl, List.prefix_refl _⟩
          · exact ⟨rfl, List.prefix_append _ _⟩
    · exact ⟨rfl, List.prefix_refl _⟩
  have hcore : onNodeRepaired env s.toFoldCore e = recordRepairLedger s.toFoldCore e.data := by
    unfold onNodeRepaired
    dsimp only
    rw [nodeForEvent_congr (boardOf_recordRepairLedger s.toFoldCore e.data).2, hn]
    dsimp only
    rw [if_pos (by simp [repairable, hs.generationMatches])]
  have hst : (s.liftCore (onNodeRepaired env) e).st = (recordRepairLedger s.toFoldCore e.data).st :=
    congrArg FoldCore.st hcore
  refine ⟨?_, ?_, .inl ?_, fun _ hb _ => hb, fun _ hb _ => hb⟩
  · rw [hst, hstate.1]
  · rw [hst]
    exact hstate.2
  · rw [hst, hstate.1]

theorem superseded_confirmEval (hn : s.st.nodeForEvent e.data = some n)
    (hs : StaleStamp n e.data) : Inert s (s.liftCore onConfirmEval e) e n := by
  refine inert_of_charged hs ?_ (.inl rfl)
  show Charged s.st (onConfirmEval s.toFoldCore e).st
  unfold onConfirmEval
  dsimp only
  rw [hn]
  dsimp only
  split
  · exact .refl _
  · split
    · exact .refl _
    · rename_i seed _
      rw [if_pos (by simp [hs.generationMatches])]
      unfold chargeConfirm
      dsimp only
      split
      · exact .refl _
      · split
        · exact .refl _
        · exact charged_chargeEvalSeconds _ _ _

theorem superseded_holdoutEvaluated (hn : s.st.nodeForEvent e.data = some n)
    (hs : StaleStamp n e.data) : Inert s (s.liftCore (onHoldoutEvaluated env) e) e n := by
  obtain ⟨hid, hget⟩ := RunState.id_of_nodeForEvent hn
  refine inert_of_charged hs ?_ (.inl rfl)
  show Charged s.st (onHoldoutEvaluated env s.toFoldCore e).st
  have hcharge : Charged s.st (chargeHoldout s.toFoldCore n.id e.data).st := by
    unfold chargeHoldout
    dsimp only
    split
    · exact .refl _
    · exact charged_chargeEvalSeconds _ _ _
  unfold onHoldoutEvaluated
  dsimp only
  rw [hid]
  dsimp only
  rw [nodes_chargeHoldout, hget]
  dsimp only
  rw [if_pos (by simp [hs.generationMatches])]
  exact hcharge

theorem superseded_evalNoiseSeed (hn : s.st.nodeForEvent e.data = some n)
    (hs : StaleStamp n e.data) {i : Int} (hi : e.data.get "generation" = .int i)
    (hne : i ≠ n.attempt) : Inert s (s.liftCore onEvalNoiseSeed e) e n := by
  obtain ⟨hid, hget⟩ := RunState.id_of_nodeForEvent hn
  refine inert_of_charged hs ?_ (.inl rfl)
  show Charged s.st (onEvalNoiseSeed s.toFoldCore e).st
  unfold onEvalNoiseSeed noiseGeneration
  dsimp only
  rw [hid, hi]
  split
  · rename_i nid seed hnid _
    cases hnid
    dsimp only
    rw [hget]
    dsimp only
    rw [if_pos hne]
    split
    · exact .refl _
    · exact charged_chargeEvalSeconds _ _ _
  · exact .refl _

theorem superseded_pause (hk : e.kind = some .pause) (hn : s.st.nodeForEvent e.data = some n)
    (hs : StaleStamp n e.data) : Inert s (s.lift onPause e) e n := by
  have hnamed := isNull_of_named hn
  have hst : (s.lift onPause e).st = { s.st with pauseDrainBuilds := false } := by
    show pauseWith s.st e e.data = _
    have hundrain : undrain s.st e.data = { s.st with pauseDrainBuilds := false } := by
      unfold undrain drains
      rw [hnamed, Bool.and_false]
      rfl
    unfold pauseWith
    rw [hnamed, hn, hundrain]
    have hmay : maypause s.st n e.data = false := by
      unfold maypause
      rw [hs.generationMatches]
      simp
    simp only [hmay, Bool.false_eq_true, if_false, ite_self]
  refine ⟨by rw [hst], by rw [hst], .inr ⟨hk, by rw [hst]⟩, fun _ hb _ => hb,
    fun _ hb _ => hb⟩

/-! ## Handlers that do nothing at all -/

section Unchanged
variable {st : RunState} (hn : st.nodeForEvent e.data = some n) (hs : StaleStamp n e.data)
include hn hs

theorem unchanged_nodeEvalStarted : onNodeEvalStarted st e = st := by
  unfold onNodeEvalStarted
  rw [hn]
  simp only [hs.generationMatches, Bool.not_false, if_true]

theorem unchanged_nodeOverlayRebased : onNodeOverlayRebased st e = st := by
  have hrep : repairable st n e.data = false := by
    unfold repairable
    rw [hs.generationMatches]
    simp
  unfold onNodeOverlayRebased
  rw [hn]
  split
  · rename_i m _ _ hm _ _
    cases hm
    simp only [hrep, Bool.false_and, Bool.false_eq_true, if_false]
  · rfl

theorem unchanged_stageFinished : onStageFinished st e = st := by
  unfold onStageFinished acceptsStage
  rw [hn]
  simp only [hs.generationMatches, Bool.and_false, Bool.false_eq_true, if_false]

theorem unchanged_nodeConfirmed : onNodeConfirmed env st e = st := by
  unfold onNodeConfirmed
  dsimp only
  rw [hn]
  simp only [hs.generationMatches, Bool.not_false, Bool.or_true, if_true, ite_self]

theorem unchanged_nodeVerified : onNodeVerified env st e = st := by
  unfold onNodeVerified
  dsimp only
  rw [hn]
  simp only [hs.stampedFor, Bool.not_false, Bool.or_true, if_true]

theorem unchanged_nodeValueEstimated : onNodeValueEstimated st e = st := by
  unfold onNodeValueEstimated
  rw [hn]
  simp only [hs.stampedFor, Bool.not_false, Bool.or_true, if_true]

theorem unchanged_agentValidated : onAgentValidated st e = st := by
  unfold onAgentValidated
  dsimp only
  rw [hn]
  simp only [hs.generationMatches, Bool.not_false, Bool.or_true, if_true]

theorem unchanged_proxyScored : onProxyScored st e = st := by
  obtain ⟨hid, hget⟩ := RunState.id_of_nodeForEvent hn
  unfold onProxyScored
  dsimp only
  rw [hid]
  dsimp only
  rw [hget]
  have hpresent : decide (eventGeneration e.data ≠ .missing) = true :=
    decide_eq_true (hs.present false)
  simp only [Option.any_some, hs.generationMatches, hpresent, Bool.not_false, Bool.and_true, if_true,
    ite_self]

theorem unchanged_appliedParams : onAppliedParamsBackfilled env st e = st := by
  unfold onAppliedParamsBackfilled
  rw [hn]
  split
  · rename_i m stamped hm _
    cases hm
    split
    · rfl
    · simp only [hs.generationMatches, Bool.not_false, Bool.true_or, if_true]
  · rfl

theorem measuredNode_stale : measuredNode st e.data = none := by
  unfold measuredNode
  rw [hn]
  simp [Option.filter, hs.generationMatches]

theorem unchanged_scoreMetrics : onScoreMetricsBackfilled st e = st := by
  unfold onScoreMetricsBackfilled
  dsimp only
  rw [measuredNode_stale hn hs]

theorem unchanged_extraMetricsImported : onExtraMetricsImported st e = st := by
  unfold onExtraMetricsImported
  rw [measuredNode_stale hn hs]

theorem queueForced_stale (requests : List Int) (generations : List (Int × Nat)) :
    queueForcedRequest st e.data requests generations = (requests, generations) := by
  obtain ⟨hid, hget⟩ := RunState.id_of_nodeForEvent hn
  unfold queueForcedRequest
  rw [hid]
  dsimp only
  rw [hget]
  simp only [hs.controllable st, Bool.false_eq_true, if_false]

theorem unchanged_promote : onPromote st e = st := by
  have hrefuse : acceptsPromotion st e.data = false := by
    unfold acceptsPromotion
    rw [show (coerceNodeId e.data).bind st.nodes.get = some n from hn]
    exact hs.controllable st
  unfold onPromote
  rw [hrefuse]
  rfl

theorem unchanged_approvalRequested : onApprovalRequested st e = st := by
  obtain ⟨hid, hget⟩ := RunState.id_of_nodeForEvent hn
  unfold onApprovalRequested
  dsimp only
  rw [hid]
  have hcur : (some n.id).bind st.nodes.get = some n := hget
  have hpresent : decide (eventGeneration e.data ≠ .missing) = true :=
    decide_eq_true (hs.present false)
  simp only [hcur, Option.any_some, Option.isSome_some, hs.generationMatches, hpresent,
    Bool.not_false, Bool.and_true, if_true, ite_self]

theorem unchanged_approvalGranted : onApprovalGranted st e = st := by
  have hnamed : (e.data.get "node_id").isNull = false := isNull_of_named hn
  unfold onApprovalGranted
  dsimp only
  rw [hnamed, hn]
  simp only [hs.generationMatches, Bool.not_false, Bool.or_true, if_true, Bool.false_eq_true,
    if_false]

theorem unchanged_nodeAbort {s : FoldState} (hst : s.st = st) : onNodeAbort clampedPred s e = s := by
  subst hst
  obtain ⟨hid, hget⟩ := RunState.id_of_nodeForEvent hn
  have hrefuse : acceptsAbort s.st e.data n.id = false := by
    unfold acceptsAbort
    rw [hget]
    dsimp only
    rw [hs.controlGenerationMatches, Bool.and_false]
  unfold onNodeAbort
  rw [hid]
  simp only [hrefuse, Bool.not_false, if_true]

theorem unchanged_nodeReset {s : FoldState} (hst : s.st = st) : onNodeReset clampedPred s e = s := by
  subst hst
  have hrefuse : acceptsReset n e.data = false := by
    unfold acceptsReset
    rw [hs.controlGenerationMatches, Bool.and_false]
  unfold onNodeReset
  dsimp only
  rw [hn]
  simp only [hrefuse, Bool.not_false, if_true]

end Unchanged

theorem unchanged_fork {st : RunState}
    (hn : (coerceNodeId e.data "from_node_id").bind st.nodes.get = some n)
    (hs : StaleStamp n e.data) : onFork st e = st := by
  obtain ⟨id, hid, hget⟩ := Option.bind_eq_some_iff.mp hn
  unfold onFork
  dsimp only
  rw [hid]
  dsimp only
  rw [hget]
  simp only [hs.controllable st, Bool.not_false, if_true]

theorem inert_of_superseded {t : EventType} (h : SupersededRow s.st e t n)
    (hnoise : t = .evalNoiseSeed → ∃ i, e.data.get "generation" = .int i) :
    Inert s (step env s e) e n := by
  have hs := h.staleStamp
  have hstep : step env s e = handle clampedPred env s e t := by
    unfold step stepWith
    rw [h.kind]
  have hn (ht : t ≠ .fork) : s.st.nodeForEvent e.data = some n := by
    have := h.named
    unfold nodeKey at this
    rwa [if_neg ht] at this
  rw [hstep]
  have hcovered := h.covered
  simp only [lifecycleTypes, List.mem_cons, List.not_mem_nil, or_false] at hcovered
  rcases hcovered with rfl | rfl | rfl | rfl | rfl | rfl | rfl | rfl | rfl | rfl | rfl | rfl | rfl |
    rfl | rfl | rfl | rfl | rfl | rfl | rfl | rfl | rfl | rfl | rfl | rfl | rfl | rfl | rfl
  · exact superseded_nodeBuilding _ (hn nofun) hs
  · exact superseded_nodeCreated (hn nofun) hs
  · exact inert_lift hs (unchanged_nodeEvalStarted (hn nofun) hs)
  · exact superseded_nodeEvaluated (hn nofun) hs
  · exact superseded_nodeFailed (hn nofun) hs
  · exact superseded_nodeRepaired (hn nofun) hs
  · exact inert_lift hs (unchanged_nodeOverlayRebased (hn nofun) hs)
  · exact inert_lift hs (unchanged_stageFinished (hn nofun) hs)
  · exact superseded_confirmEval (hn nofun) hs
  · exact inert_lift hs (unchanged_nodeConfirmed (hn nofun) hs)
  · obtain ⟨i, hi⟩ := hnoise rfl
    refine superseded_evalNoiseSeed (hn nofun) hs hi fun heq => h.stale ?_
    rw [hi, heq]
    rfl
  · exact superseded_holdoutEvaluated (hn nofun) hs
  · exact inert_lift hs (unchanged_nodeVerified (hn nofun) hs)
  · exact inert_lift hs (unchanged_nodeValueEstimated (hn nofun) hs)
  · exact inert_lift hs (unchanged_agentValidated (hn nofun) hs)
  · exact inert_lift hs (unchanged_proxyScored (hn nofun) hs)
  · exact inert_lift hs (unchanged_appliedParams (hn nofun) hs)
  · exact inert_lift hs (unchanged_scoreMetrics (hn nofun) hs)
  · exact inert_lift hs (unchanged_extraMetricsImported (hn nofun) hs)
  · refine inert_lift hs ?_
    unfold onForceConfirm
    simp only [queueForced_stale (hn nofun) hs]
  · refine inert_lift hs ?_
    unfold onForceAblate
    simp only [queueForced_stale (hn nofun) hs]
  · exact inert_lift hs (unchanged_fork h.named hs)
  · exact inert_lift hs (unchanged_promote (hn nofun) hs)
  · rw [show handle clampedPred env s e .nodeAbort = s from unchanged_nodeAbort (hn nofun) hs rfl]
    exact inert_of_charged hs (.refl _) (.inl rfl)
  · rw [show handle clampedPred env s e .nodeReset = s from unchanged_nodeReset (hn nofun) hs rfl]
    exact inert_of_charged hs (.refl _) (.inl rfl)
  · exact superseded_pause h.kind (hn nofun) hs
  · exact inert_lift hs (unchanged_approvalRequested (hn nofun) hs)
  · exact inert_lift hs (unchanged_approvalGranted (hn nofun) hs)

end Handlers

/-! ## The one handler that reads the stamp its own way -/

theorem setSeed_of_memo {memo : Dict Int (Dict Int (Option Rat))} {nid seed : Int}
    {metric : Option Rat} (h : (memo.get nid).bind (·.get seed) = some metric) :
    setSeed memo nid seed metric = memo := by
  obtain ⟨seeds, hseeds, hmetric⟩ := Option.bind_eq_some_iff.mp h
  unfold setSeed
  rw [hseeds]
  simp only [Option.getD_some, Dict.set_of_get hmetric, Dict.set_of_get hseeds]

theorem get_setSeed (memo : Dict Int (Dict Int (Option Rat))) (nid seed : Int)
    (metric : Option Rat) :
    ((setSeed memo nid seed metric).get nid).bind (·.get seed) = some metric := by
  unfold setSeed
  rw [Dict.get_set, if_pos rfl, Option.bind_some, Dict.get_set, if_pos rfl]

theorem evalNoiseSeed_forged {c : FoldCore} {e : Event} {n : Node} {seed : Int}
    (hn : c.st.nodeForEvent e.data = some n) (hraw : (e.data.get "generation").int? = none)
    (hseed : seedOf e.data = some seed) : ∃ st, Charged c.st st ∧ (onEvalNoiseSeed c e).st =
      { st with
        evalNoiseSeedResults :=
          setSeed c.st.evalNoiseSeedResults n.id seed (e.data.get "metric").finiteMetric } := by
  obtain ⟨hid, hget⟩ := RunState.id_of_nodeForEvent hn
  have hgen : noiseGeneration (some n) e.data = n.attempt := by
    unfold noiseGeneration
    cases hg : e.data.get "generation" with
    | int i =>
      rw [hg] at hraw
      cases hraw
    | _ => rfl
  unfold onEvalNoiseSeed
  dsimp only
  rw [hid, hseed]
  dsimp only
  rw [hget, hgen]
  simp only [ne_eq, not_true_eq_false, if_false]
  split
  · exact ⟨c.st, .refl _, rfl⟩
  · exact ⟨_, charged_chargeEvalSeconds c.st .noise (e.data.get "eval_seconds"), rfl⟩

/-- After the log, the row leaves every lifecycle it may speak of alone. -/
def SupersededInert (env : Env) (s : FoldState) (e : Event) : Prop :=
  ∀ t n, SupersededRow s.st e t n → Inert s (step env s e) e n

theorem step_evalNoiseSeed {env : Env} {s : FoldState} {e : Event}
    (hk : e.kind = some .evalNoiseSeed) : step env s e = s.liftCore onEvalNoiseSeed e := by
  unfold step stepWith
  rw [hk]
  rfl

theorem noiseMemo_eq {st : RunState} {d : Obj} {nid seed : Int} (hid : coerceNodeId d = some nid)
    (hseed : seedOf d = some seed) :
    noiseMemo st d = (st.evalNoiseSeedResults.get nid).bind (·.get seed) := by
  unfold noiseMemo
  rw [hid, hseed]
  rfl

theorem not_inert_of_forges {env : Env} {s : FoldState} {e : Event} {t : EventType} {n : Node}
    (h : SupersededRow s.st e t n) (hf : ForgesNoiseSeed s.st e) :
    ¬ Inert s (step env s e) e n := by
  obtain ⟨hk, hraw, hseed, hmemo⟩ := hf
  obtain ⟨seed, hseed⟩ := Option.isSome_iff_exists.mp hseed
  have ht : t = .evalNoiseSeed := Option.some.inj (h.kind.symm.trans hk)
  subst ht
  have hn : s.st.nodeForEvent e.data = some n := h.named
  obtain ⟨st, -, hst⟩ := evalNoiseSeed_forged (c := s.toFoldCore) hn hraw hseed
  intro hinert
  have hsame : (step env s e).st.evalNoiseSeedResults = s.st.evalNoiseSeedResults := by
    rw [hinert.state]
  rw [step_evalNoiseSeed hk] at hsame
  change (onEvalNoiseSeed s.toFoldCore e).st.evalNoiseSeedResults = _ at hsame
  rw [hst] at hsame
  refine hmemo ?_
  rw [noiseMemo_eq (RunState.id_of_nodeForEvent hn).1 hseed, ← hsame]
  exact get_setSeed _ _ _ _

theorem inert_of_not_forges {env : Env} {s : FoldState} {e : Event} {n : Node}
    (h : SupersededRow s.st e .evalNoiseSeed n) (hf : ¬ ForgesNoiseSeed s.st e) :
    Inert s (step env s e) e n := by
  have hn : s.st.nodeForEvent e.data = some n := h.named
  have hs := h.staleStamp
  cases hraw : (e.data.get "generation").int? with
  | some i =>
    refine inert_of_superseded h fun _ => ⟨i, ?_⟩
    cases hg : e.data.get "generation" <;> rw [hg] at hraw <;> cases hraw
    rfl
  | none =>
    rw [step_evalNoiseSeed h.kind]
    refine inert_of_charged hs ?_ (.inl rfl)
    show Charged s.st (onEvalNoiseSeed s.toFoldCore e).st
    cases hseed : seedOf e.data with
    | none =>
      unfold onEvalNoiseSeed
      dsimp only
      rw [hseed, (RunState.id_of_nodeForEvent hn).1]
      exact .refl _
    | some seed =>
      obtain ⟨st, ⟨total, byKind, rfl⟩, hst⟩ :=
        evalNoiseSeed_forged (c := s.toFoldCore) hn hraw hseed
      have hmemo : noiseMemo s.st e.data = some (e.data.get "metric").finiteMetric := by
        by_contra hne
        exact hf ⟨h.kind, hraw, by rw [hseed]; rfl, hne⟩
      rw [noiseMemo_eq (RunState.id_of_nodeForEvent hn).1 hseed] at hmemo
      rw [hst, setSeed_of_memo hmemo]
      exact ⟨total, byKind, rfl⟩

/-- In every state a log folds to, a row of a superseded lifecycle is inert exactly when it is not a
noise seed whose stamp is no integer and whose metric is not remembered yet. -/
theorem superseded_inert_iff (env : Env) (log : List Event) (e : Event) :
    SupersededInert env (replay env log) e ↔
      ¬ ((∃ t n, SupersededRow (replay env log).st e t n) ∧
        ForgesNoiseSeed (replay env log).st e) := by
  constructor
  · rintro h ⟨⟨t, n, hrow⟩, hf⟩
    exact not_inert_of_forges hrow hf (h t n hrow)
  · intro h t n hrow
    have hf : ¬ ForgesNoiseSeed (replay env log).st e := fun hf => h ⟨⟨t, n, hrow⟩, hf⟩
    by_cases ht : t = .evalNoiseSeed
    · subst ht
      exact inert_of_not_forges hrow hf
    · exact inert_of_superseded hrow fun heq => absurd heq ht

/-- A noise seed of the first lifecycle, its stamp written as a numeral in a string. -/
def forgedSeed : Event where
  seq := 2
  type := "eval_noise_seed"
  data :=
    [("node_id", .int 0), ("generation", .str "0"), ("seed", .int 7), ("metric", .float (1 / 2)),
     ("eval_seconds", .int 1)]

def draftRestarted : Event where
  seq := 1
  type := "node_reset"
  data := [("node_id", .int 0), ("generation", .int 0), ("from_stage", .str "eval")]

/-- After a reset the seed of the abandoned lifecycle is remembered as one of the new lifecycle. -/
theorem forged_seed_remembered :
    noiseMemo (fold .plain [draftCreated 0, draftRestarted]) forgedSeed.data = none ∧
      noiseMemo (fold .plain [draftCreated 0, draftRestarted, forgedSeed]) forgedSeed.data =
        some (some (1 / 2)) ∧
      ¬ SupersededInert .plain (replay .plain [draftCreated 0, draftRestarted]) forgedSeed := by
  refine ⟨by decide +kernel, by decide +kernel, fun h => ?_⟩
  have hattempt : ((replay .plain [draftCreated 0, draftRestarted]).st.nodes.get 0).map
      Node.attempt = some 1 := by decide +kernel
  obtain ⟨n, hn, hatt⟩ := Option.map_eq_some_iff.mp hattempt
  have hrow : SupersededRow (replay .plain [draftCreated 0, draftRestarted]).st forgedSeed
      .evalNoiseSeed n :=
    ⟨by decide, by decide, hn, by decide, by rw [hatt]; decide +kernel⟩
  exact not_inert_of_forges hrow ⟨by decide, by decide, by decide, by decide +kernel⟩ (h _ n hrow)

end LoopLab
