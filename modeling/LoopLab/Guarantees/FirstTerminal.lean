import LoopLab.Lifecycles.Renewals
import LoopLab.Guarantees.FailureCount

/-!
# The first terminal row wins

Once a terminal row settled a lifecycle, its key is charged and the lifecycle is over, and it stays so whatever
follows.
-/

set_option autoImplicit false

namespace LoopLab
open Lib Board

/-- The event is a terminal row accepted for the pending node `n`. -/
structure AcceptsTerminal (st : RunState) (t : Event) (n : Node) : Prop where
  named : st.nodeForEvent t.data = some n
  pending : n.status = .pending
  accepts : (t.kind = some .nodeEvaluated ∧ chargesOnly st n t.data = false) ∨
    (t.kind = some .nodeFailed ∧ failureChargesOnly st n t.data = false)

/-- The event is a terminal row of lifecycle `g` of `id`. -/
structure TerminalRowOf (e : Event) (id : Int) (g : Nat) : Prop where
  kind : e.kind = some .nodeEvaluated ∨ e.kind = some .nodeFailed
  names : coerceNodeId e.data = some id
  generation : terminalGeneration e.data = some g

/-- The event is a creation row for a node that is there and not pending. -/
def CreatesSettled (st : RunState) (e : Event) : Prop :=
  e.kind = some .nodeCreated ∧ ∃ n, st.nodeForEvent e.data = some n ∧ n.status ≠ .pending

/-! ## Build markers decide nothing -/

theorem core_onNodeBuilding (env : Env) (s : FoldState) (e : Event) :
    (onNodeBuilding env s e).toFoldCore = s.toFoldCore := by
  unfold onNodeBuilding
  dsimp only
  split
  · rfl
  · split
    · rfl
    · split <;> rfl

theorem core_step (env : Env) (c : FoldCore) (m m' : Marks) (e : Event) :
    (step env ⟨c, m⟩ e).toFoldCore = (step env ⟨c, m'⟩ e).toFoldCore := by
  unfold step stepWith
  cases e.kind with
  | none => rfl
  | some t =>
    cases t with
    | nodeBuilding => exact (core_onNodeBuilding _ ⟨c, m⟩ e).trans (core_onNodeBuilding _ ⟨c, m'⟩ e).symm
    | nodeFailed => exact (core_onNodeFailed ⟨c, m⟩).trans (core_onNodeFailed ⟨c, m'⟩).symm
    | nodeCreated =>
      show (onNodeCreated env ⟨c, m⟩ e).toFoldCore = (onNodeCreated env ⟨c, m'⟩ e).toFoldCore
      unfold onNodeCreated
      cases coerceNodeId e.data with
      | none => rfl
      | some nid =>
        dsimp only
        cases acceptedCreation env c.st e nid with
        | none =>
          dsimp only
          split <;> rfl
        | some n => rfl
    | nodeEvaluated =>
      show (onNodeEvaluated env ⟨c, m⟩ e).toFoldCore = (onNodeEvaluated env ⟨c, m'⟩ e).toFoldCore
      unfold onNodeEvaluated
      dsimp only
      cases c.st.nodeForEvent e.data with
      | none => rfl
      | some n =>
        dsimp only
        split
        · rfl
        · split <;> rfl
    | nodeTombstoned =>
      show (onNodeTombstoned clampedPred ⟨c, m⟩ e).toFoldCore =
        (onNodeTombstoned clampedPred ⟨c, m'⟩ e).toFoldCore
      unfold onNodeTombstoned
      dsimp only
      split
      · rfl
      · split <;> rfl
    | nodeReset =>
      show (onNodeReset clampedPred ⟨c, m⟩ e).toFoldCore =
        (onNodeReset clampedPred ⟨c, m'⟩ e).toFoldCore
      unfold onNodeReset
      dsimp only
      cases c.st.nodeForEvent e.data with
      | none => rfl
      | some n =>
        dsimp only
        split <;> rfl
    | nodeAbort =>
      show (onNodeAbort clampedPred ⟨c, m⟩ e).toFoldCore =
        (onNodeAbort clampedPred ⟨c, m'⟩ e).toFoldCore
      unfold onNodeAbort
      cases coerceNodeId e.data with
      | none => rfl
      | some nid =>
        dsimp only
        split
        · rfl
        · split <;> rfl
    | runFinished =>
      show (onRunFinished env ⟨c, m⟩ e).toFoldCore = (onRunFinished env ⟨c, m'⟩ e).toFoldCore
      unfold onRunFinished
      dsimp only
      split <;> rfl
    | _ => rfl

theorem core_run (env : Env) (tail : List Event) {s s' : FoldState}
    (h : s.toFoldCore = s'.toFoldCore) :
    (tail.foldl (step env) s).toFoldCore = (tail.foldl (step env) s').toFoldCore := by
  induction tail generalizing s s' with
  | nil => exact h
  | cons e tail ih =>
    obtain ⟨c, m⟩ := s
    obtain ⟨c', m'⟩ := s'
    cases h
    exact ih (core_step env c m m' e)

theorem fold_drop (env : Env) {log tail : List Event} {e : Event}
    (h : (step env (replay env log) e).toFoldCore = (replay env log).toFoldCore) :
    fold env (log ++ e :: tail) = fold env (log ++ tail) := by
  have hcore : (replay env (log ++ e :: tail)).toFoldCore = (replay env (log ++ tail)).toFoldCore := by
    rw [replay_append, replay_append]
    exact core_run env tail h
  unfold fold
  rw [congrArg FoldCore.st hcore]

/-! ## Settled lifecycles stay settled -/

theorem settled_run (env : Env) (tail : List Event) {log : List Event} {id : Int} {g : Nat}
    (h : Settled (boardOf (replay env log).toFoldCore) id g) :
    Settled (boardOf (replay env (log ++ tail)).toFoldCore) id g := by
  induction tail using List.reverseRecOn with
  | nil => rwa [List.append_nil]
  | append_singleton tail e ih =>
    rw [← List.append_assoc, replay_snoc]
    exact Evolves.settled (stepWith_moves clampedPred env (replay env (log ++ tail)) e) ih

theorem settled_of_charged {c c' : FoldCore} {n m : Node} {d : Obj}
    (hget : c'.st.nodeForEvent d = some m) (hid : m.id = n.id) (hatt : m.attempt = n.attempt)
    (hst : m.status ≠ .pending) (hmatch : attemptMatches n d = true)
    (hctx : c'.ctx = (chargeTerminalCost c m d).ctx) : Settled (boardOf c') n.id n.attempt where
  charged := by
    have hgen : terminalGeneration d = some m.attempt := hatt ▸ attemptMatches_iff.mp hmatch
    show (n.id, n.attempt) ∈ c'.ctx.chargedTerminalGenerations
    rw [hctx, ← hid, ← hatt]
    exact charged_chargeTerminal c hgen le_rfl
  ended := by
    refine ⟨lifeOf m, ?_, .inr ⟨hatt.symm, fun h => hst (phaseOf_pending.mp h)⟩⟩
    rw [get_boardOf, ← hid, (RunState.id_of_nodeForEvent hget).2]
    rfl

theorem settled_of_accepts {env : Env} {s : FoldState} {t : Event} {n : Node}
    (h : AcceptsTerminal s.st t n) : Settled (boardOf (step env s t).toFoldCore) n.id n.attempt := by
  have hn := h.named
  rcases h.accepts with ⟨hk, honly⟩ | ⟨hk, honly⟩
  · have hmatch : attemptMatches n t.data = true := by
      simp only [chargesOnly, Bool.or_eq_false_iff, Bool.not_eq_false'] at honly
      exact honly.2
    obtain ⟨hid, hatt, hdone, -, -⟩ := evaluatedNode_life env s.st t n
    have hstep : (step env s t).toFoldCore = chargeTerminalCost
        { s.toFoldCore with st := s.st.setNode (evaluatedNode env s.st t n) }
        (evaluatedNode env s.st t n) t.data := by
      unfold chargesOnly at honly
      unfold step stepWith
      rw [hk]
      show (onNodeEvaluated env s t).toFoldCore = _
      unfold onNodeEvaluated
      rw [hn]
      simp only [honly, h.pending, Bool.false_eq_true, if_false, ne_eq, not_true_eq_false]
    rw [hstep]
    refine settled_of_charged (m := evaluatedNode env s.st t n) ?_ hid hatt
      (by rw [hdone]; exact nofun) hmatch rfl
    exact (nodeForEvent_congr (nodes_chargeTerminal _ _ _) t.data).trans (nodeForEvent_setNode hn hid)
  · have hmatch : attemptMatches n t.data = true := by
      simp only [failureChargesOnly, Bool.or_eq_false_iff, Bool.not_eq_false'] at honly
      exact honly.2
    have hcore : (step env s t).toFoldCore = settleFailed env s.toFoldCore t := by
      unfold step stepWith
      rw [hk]
      exact core_onNodeFailed s
    have hstep : settleFailed env s.toFoldCore t =
        { chargeTerminalCost { s.toFoldCore with st := s.st.setNode (failedNode env t n) }
            (failedNode env t n) t.data with
          st := addCurrentFailure (chargeTerminalCost
            { s.toFoldCore with st := s.st.setNode (failedNode env t n) }
            (failedNode env t n) t.data).st (failedNode env t n) t } := by
      unfold failureChargesOnly at honly
      unfold settleFailed
      rw [hn]
      simp only [honly, h.pending, Bool.false_eq_true, if_false, ne_eq, not_true_eq_false]
    rw [hcore, hstep]
    refine settled_of_charged (m := failedNode env t n) ?_ rfl rfl nofun hmatch rfl
    refine (nodeForEvent_congr (nodes_addCurrentFailure _ _ _).1 t.data).trans ?_
    exact (nodeForEvent_congr (nodes_chargeTerminal _ _ _) t.data).trans
      (nodeForEvent_setNode (m := failedNode env t n) hn rfl)

/-! ## Rows that come too late -/

theorem closed_of_settledLife {only : RunState → Node → Obj → Bool} {c : FoldCore} {d : Obj}
    {id : Int} {g : Nat} (hs : Settled (boardOf c) id g) (hid : coerceNodeId d = some id)
    (hg : terminalGeneration d = some g)
    (honly : ∀ n, only c.st n d = false → attemptMatches n d = true) : Closed only c d where
  charged n hn _ g' hg' _ := by
    have hname := (RunState.id_of_nodeForEvent hn).1
    rw [hid] at hname
    rw [hg] at hg'
    cases hname
    cases hg'
    exact hs.charged
  settled n hn hno := by
    have hname := RunState.id_of_nodeForEvent hn
    rw [hid] at hname
    obtain ⟨hname, hget⟩ := hname
    cases hname
    obtain ⟨l, hl, hover⟩ := hs.ended
    rw [get_boardOf, hget] at hl
    cases hl
    have hatt := attemptMatches_iff.mp (honly n hno)
    rw [hg] at hatt
    cases hatt
    rcases hover with hlt | ⟨-, hphase⟩
    · exact absurd hlt (Nat.lt_irrefl _)
    · exact fun hp => hphase (phaseOf_pending.mpr hp)

theorem core_lateTerminal {env : Env} {s : FoldState} {e : Event} {id : Int} {g : Nat}
    (hs : Settled (boardOf s.toFoldCore) id g) (he : TerminalRowOf e id g) :
    (step env s e).toFoldCore = s.toFoldCore := by
  unfold step stepWith
  rcases he.kind with hk | hk
  · rw [hk]
    refine onNodeEvaluated_closed (closed_of_settledLife hs he.names he.generation fun n h => ?_)
    simp only [chargesOnly, Bool.or_eq_false_iff, Bool.not_eq_false'] at h
    exact h.2
  · rw [hk]
    refine (core_onNodeFailed s).trans
      (settleFailed_closed (closed_of_settledLife hs he.names he.generation fun n h => ?_))
    simp only [failureChargesOnly, Bool.or_eq_false_iff, Bool.not_eq_false'] at h
    exact h.2

theorem step_createsSettled {env : Env} {s : FoldState} {e : Event} (h : CreatesSettled s.st e) :
    step env s e = s := by
  obtain ⟨hk, n, hn, hst⟩ := h
  obtain ⟨hid, hget⟩ := RunState.id_of_nodeForEvent hn
  have hpast : (s.st.nodes.get n.id).any (·.status ≠ .pending) = true := by
    rw [hget]
    simpa using hst
  have hnone : acceptedCreation env s.st e n.id = none := by
    unfold acceptedCreation
    simp only [hpast, Bool.true_or, if_true]
  have hkeep : creationClearsMarker s.st e.data n.id = false := by
    unfold creationClearsMarker
    rw [hpast]
    rfl
  unfold step stepWith
  rw [hk]
  show onNodeCreated env s e = s
  unfold onNodeCreated
  rw [hid]
  simp only [hnone, hkeep, Bool.false_eq_true, if_false]

/-- After a log, the first terminal row accepted for a node decides: no further terminal row of the
same lifecycle changes what any longer log folds to, wherever it is inserted; and no creation row
inserted while its node is not pending does. -/
theorem first_terminal_wins (env : Env) (log tail : List Event) :
    (∀ t n mid dup, AcceptsTerminal (replay env log).st t n → TerminalRowOf dup n.id n.attempt →
      fold env (log ++ t :: mid ++ dup :: tail) = fold env (log ++ t :: mid ++ tail)) ∧
    ∀ created, CreatesSettled (replay env log).st created →
      fold env (log ++ created :: tail) = fold env (log ++ tail) := by
  refine ⟨fun t n mid dup ht hdup => fold_drop env ?_, fun created h => fold_drop env ?_⟩
  · have hcons : log ++ t :: mid = (log ++ [t]) ++ mid := by simp
    have hsettled : Settled (boardOf (step env (replay env log) t).toFoldCore) n.id n.attempt :=
      settled_of_accepts ht
    rw [← replay_snoc] at hsettled
    rw [hcons]
    exact core_lateTerminal (settled_run env mid hsettled) hdup
  · rw [step_createsSettled h]

end LoopLab
