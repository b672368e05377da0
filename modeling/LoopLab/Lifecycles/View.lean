import LoopLab.Lib.Lifecycle
import LoopLab.Fold.Dispatch

/-!
# The board a folded state shows

`boardOf` forgets everything of a folded state but the lifecycles of its nodes, the aborts, the failure count, the
charged terminals and the evaluation budget.
-/

set_option autoImplicit false

namespace LoopLab
open Lib Board

namespace Node

/-- The node without anything an evaluation terminal or a later judgement writes. -/
def cleared (n : Node) : Node :=
  { n with
    metric := .null
    taskMetric := .null
    selfMetric := none
    stdoutTail := .str ""
    stderrTail := ""
    resourceCurve := none
    evalSeconds := .null
    extraMetrics := Table.empty
    extraMetricsProvenance := Table.empty
    extraMetricsDirection := Table.empty
    extraMetricsBackfill := []
    extraMetricsOmitted := []
    violations := .arr []
    feasible := true
    metricProvenance := none
    activation := none
    trials := []
    error := .str ""
    errorReason := ""
    triageRationale := ""
    failedStage := .null
    confirmedMean := none
    confirmedStd := none
    confirmedSeeds := none
    confirmedRuler := none
    holdoutMetric := none
    verifierScore := none
    valuePrior := none
    agentReport := none
    evalStarted := false
    evalActivityStarted := false
    evalStartedAt := none
    neverEvaluated := false }

def Fresh (n : Node) : Prop := n.cleared = n

end Node

def phaseOf (n : Node) : Phase :=
  match n.status with
  | .pending => .pending
  | .evaluated => .done
  | .failed => .failed (benignReason n.errorReason)

def lifeOf (n : Node) : Life Int StageAttempt Node :=
  { id := n.id
    attempt := n.attempt
    phase := phaseOf n
    deleted := n.tombstoned
    ledger := n.stageAttempts
    record := n }

def boardOf (c : FoldCore) : Board Int StageAttempt Node CostKind :=
  { lives := c.st.nodes.image Life.id lifeOf fun _ => rfl
    aborted := c.st.abortedNodes
    failures := ⟨c.st.currentFailureCount, c.st.failureSpikeLevel⟩
    settled := c.ctx.chargedTerminalGenerations
    total := c.st.totalEvalSeconds
    byKind := c.st.evalSecondsByKind }

theorem phaseOf_pending {n : Node} : phaseOf n = .pending ↔ n.status = .pending := by
  unfold phaseOf
  cases n.status <;> simp

theorem phaseOf_done {n : Node} : phaseOf n = .done ↔ n.status = .evaluated := by
  unfold phaseOf
  cases n.status <;> simp

theorem counts_lifeOf (st : RunState) (n : Node) :
    counts st.abortedNodes (lifeOf n) = countsAsCurrentFailure st n := by
  unfold counts countsAsCurrentFailure searchOutcome lifeOf phaseOf RunState.aborted
  cases n.tombstoned <;> cases st.abortedNodes.contains n.id <;> cases n.status <;>
    cases benignReason n.errorReason <;> rfl

@[simp] theorem get_boardOf (c : FoldCore) (id : Int) :
    (boardOf c).lives.get id = (c.st.nodes.get id).map lifeOf :=
  Table.get_image c.st.nodes Life.id lifeOf (fun _ => rfl) id

theorem boardOf_setNode (c : FoldCore) (n : Node) :
    boardOf { c with st := c.st.setNode n } =
      { boardOf c with lives := (boardOf c).lives.put (lifeOf n) } := by
  have := Table.image_put c.st.nodes (Life.id : Life Int StageAttempt Node → Int) n lifeOf fun _ => rfl
  unfold boardOf RunState.setNode
  simp only [this]

def lifeMap (f : Node → Node) (l : Life Int StageAttempt Node) : Life Int StageAttempt Node :=
  { lifeOf (f l.record) with id := l.id }

theorem boardOf_mapNodes (c : FoldCore) (f : Node → Node) (hf : ∀ n, (f n).id = n.id) :
    boardOf { c with st := c.st.mapNodes f hf } =
      { boardOf c with lives := (boardOf c).lives.mapRows (lifeMap f) fun _ => rfl } := by
  unfold boardOf RunState.mapNodes
  congr 1
  apply Table.ext
  show (c.st.nodes.rows.map f).map lifeOf = (c.st.nodes.rows.map lifeOf).map (lifeMap f)
  rw [List.map_map, List.map_map]
  apply List.map_congr_left
  intro n _
  simp only [Function.comp_apply, lifeMap, lifeOf, hf]

/-! ## Single changes -/

section Moves
variable {pred : Int → Int} {may : May Int}

abbrev Moves (pred : Int → Int) (may : May Int) (c c' : FoldCore) : Prop :=
  Evolves pred Node.Fresh may (boardOf c) (boardOf c')

theorem Moves.of_eq {c c' : FoldCore} (h : boardOf c' = boardOf c) :
    Moves pred may c c' := by
  unfold Moves
  rw [h]

theorem Moves.of_step {c c' : FoldCore} {b : Board Int StageAttempt Node CostKind}
    (hb : boardOf c' = b) (h : Evolve pred Node.Fresh may (boardOf c) b) :
    Moves pred may c c' := by
  subst hb
  exact .single h

structure SameLife (n n' : Node) : Prop where
  id : n'.id = n.id
  attempt : n'.attempt = n.attempt
  phase : phaseOf n' = phaseOf n
  tombstoned : n'.tombstoned = n.tombstoned
  ledger : n'.stageAttempts = n.stageAttempts

theorem SameLife.touch {n n' : Node} (h : SameLife n n')
    (hrec : may.writes n.id ∨ (n.Fresh → n'.Fresh)) :
    Touch Node.Fresh may (lifeOf n) (lifeOf n') :=
  ⟨h.id, h.attempt, h.phase, h.tombstoned, .inl h.ledger, hrec⟩

theorem moves_setNode {c : FoldCore} {n n' : Node} (hget : c.st.nodes.get n.id = some n)
    (h : SameLife n n') (hrec : may.writes n.id ∨ (n.Fresh → n'.Fresh)) :
    Moves pred may c { c with st := c.st.setNode n' } := by
  refine Moves.of_step (boardOf_setNode c n') (.touch _ (lifeOf n) _ ?_ (h.touch hrec))
  show (boardOf c).lives.get n'.id = _
  rw [h.id, get_boardOf, hget]
  rfl

theorem moves_mapNodes {c : FoldCore} {f : Node → Node} (hid : ∀ n, (f n).id = n.id)
    (hf : ∀ n ∈ c.st.nodes.rows, (SameLife n (f n) ∧ (n.Fresh → (f n).Fresh)) ∨
      (n.status = .evaluated ∧ may.renews n.id ∧ Renewal Node.Fresh (lifeOf n) (lifeOf (f n)))) :
    Moves pred may c { c with st := c.st.mapNodes f hid } := by
  refine Moves.of_step (boardOf_mapNodes c f hid) (.sweep _ _ _ ?_)
  intro l hl
  obtain ⟨n, hn, rfl⟩ := List.mem_map.mp hl
  have heq : lifeMap f (lifeOf n) = lifeOf (f n) := by
    unfold lifeMap
    show { lifeOf (f n) with id := n.id } = lifeOf (f n)
    rw [← hid n]
    rfl
  rw [heq]
  rcases hf n hn with ⟨hs, hr⟩ | ⟨he, hr⟩
  · exact .inl (hs.touch (.inr hr))
  · exact .inr ⟨phaseOf_done.mpr he, hr⟩

theorem moves_charge (c : FoldCore) (kind : CostKind) (raw : Json) :
    Moves pred may c { c with st := chargeEvalSeconds c.st kind raw } := by
  by_cases hs : nonnegSeconds raw = 0
  · apply Moves.of_eq
    unfold boardOf chargeEvalSeconds
    simp [hs]
  · refine Moves.of_step ?_ (.spend _ kind (nonnegSeconds raw) (nonnegSeconds_nonneg raw))
    unfold boardOf chargeEvalSeconds
    simp only [hs, if_false]

theorem moves_chargeTerminal (c : FoldCore) (n : Node) (d : Obj) :
    Moves pred may c (chargeTerminalCost c n d) := by
  unfold chargeTerminalCost
  split
  · exact .refl
  · rename_i g _
    split
    · exact .refl
    · split
      · exact .refl
      · refine (moves_charge c .node (d.get "eval_seconds")).trans ?_
        exact .single (.mark _ (n.id, g))

theorem charged_chargeTerminal (c : FoldCore) {n : Node} {d : Obj} {g : Nat}
    (h : terminalGeneration d = some g) (hg : g ≤ n.attempt) :
    (n.id, g) ∈ (chargeTerminalCost c n d).ctx.chargedTerminalGenerations := by
  unfold chargeTerminalCost
  rw [h]
  simp only [Nat.not_lt.mpr hg, if_false]
  split
  · rename_i hc
    simpa using hc
  · exact List.mem_cons_self

theorem chargeTerminal_eq_self (c : FoldCore) {n : Node} {d : Obj}
    (h : ∀ g, terminalGeneration d = some g → g ≤ n.attempt →
      (n.id, g) ∈ c.ctx.chargedTerminalGenerations) : chargeTerminalCost c n d = c := by
  unfold chargeTerminalCost
  split
  · rfl
  · rename_i g hg
    split
    · rfl
    · rename_i hlt
      rw [if_pos (by simpa using h g hg (Nat.not_lt.mp hlt))]

theorem chargeTerminal_setNode (c : FoldCore) (n n' : Node) (d : Obj) (hid : n'.id = n.id)
    (hatt : n'.attempt = n.attempt) :
    chargeTerminalCost { c with st := c.st.setNode n' } n' d =
      { chargeTerminalCost c n d with st := (chargeTerminalCost c n d).st.setNode n' } := by
  unfold chargeTerminalCost
  rw [hid, hatt]
  split
  · rfl
  · split
    · rfl
    · split <;> rfl

@[simp] theorem nodes_chargeTerminal (c : FoldCore) (n : Node) (d : Obj) :
    (chargeTerminalCost c n d).st.nodes = c.st.nodes := by
  unfold chargeTerminalCost
  split
  · rfl
  · split
    · rfl
    · split <;> rfl

@[simp] theorem aborted_chargeTerminal (c : FoldCore) (n : Node) (d : Obj) :
    (chargeTerminalCost c n d).st.abortedNodes = c.st.abortedNodes := by
  unfold chargeTerminalCost
  split
  · rfl
  · split
    · rfl
    · split <;> rfl

end Moves

end LoopLab
