import LoopLab.Lifecycles.Simulation
import Mathlib.Data.List.Induction

/-!
# The failure counter

The counter the handlers maintain is the number of nodes whose search outcome is a failure, after
every log and after the trust gate's pass, and its decrement is never called at zero: the fold that
does not clamp it is the same fold.
-/

set_option autoImplicit false

namespace LoopLab
open Lib Board

/-- The counter is exact and its level is that of the count. -/
structure TalliesFailures (st : RunState) : Prop where
  count : st.currentFailureCount =
    (st.nodes.rows.countP fun n => searchOutcome st n == some true : Nat)
  level : st.failureSpikeLevel = st.currentFailureCount / 3

theorem clampedPred_of_pos (c : Int) (h : 1 ≤ c) : clampedPred c = c - 1 := by
  unfold clampedPred
  omega

theorem replay_board {P : Board Int StageAttempt Node CostKind → Prop} (env : Env)
    (hinit : P (boardOf (replay env []).toFoldCore))
    (hstep : ∀ {may : May Int} {b b'},
      Evolves clampedPred Node.Fresh may b b' → P b → P b')
    (log : List Event) : P (boardOf (replay env log).toFoldCore) := by
  induction log using List.reverseRecOn with
  | nil => exact hinit
  | append_singleton log e ih =>
    rw [replay_snoc]
    exact hstep (stepWith_moves clampedPred env (replay env log) e) ih

theorem replay_counted (env : Env) (log : List Event) :
    Counted (boardOf (replay env log).toFoldCore) :=
  replay_board (P := Counted) env rfl (fun h => Evolves.counted clampedPred_of_pos h) log

theorem replay_levelled (env : Env) (log : List Event) :
    Levelled (boardOf (replay env log).toFoldCore) :=
  replay_board (P := Levelled) env rfl (fun h => Evolves.levelled h) log

theorem counted_iff (c : FoldCore) : Counted (boardOf c) ↔ c.st.currentFailureCount =
    (c.st.nodes.rows.countP fun n => searchOutcome c.st n == some true : Nat) := by
  have : (boardOf c).lives.rows.countP (counts c.st.abortedNodes) =
      c.st.nodes.rows.countP fun n => searchOutcome c.st n == some true := by
    show (c.st.nodes.rows.map lifeOf).countP _ = _
    rw [List.countP_map]
    apply List.countP_congr
    intro n _
    rw [Function.comp_apply, counts_lifeOf]
    rfl
  unfold Counted
  show c.st.currentFailureCount = ((boardOf c).lives.rows.countP (counts c.st.abortedNodes) : Nat) ↔ _
  rw [this]

theorem tallies_replay (env : Env) (log : List Event) : TalliesFailures (replay env log).st where
  count := (counted_iff _).mp (replay_counted env log)
  level := congrArg Tally.level (replay_levelled env log)

/-! ## The trust gate's pass -/

theorem searchOutcome_gatedNode (env : Env) (st : RunState) (n : Node) :
    searchOutcome st (gatedNode env st n) = searchOutcome st n := by
  unfold gatedNode
  split <;> rfl

theorem tallies_applyTrustGate (env : Env) {st : RunState} (h : TalliesFailures st) :
    TalliesFailures (applyTrustGate env st) := by
  have hblock : TalliesFailures (blockFlagged env st) := by
    unfold blockFlagged
    split
    · refine ⟨h.count.trans ?_, h.level⟩
      show _ = (((st.nodes.rows.map (gatedNode env st)).countP
        fun n => searchOutcome st n == some true : Nat) : Int)
      rw [List.countP_map]
      congr 1
      apply List.countP_congr
      intro n _
      rw [Function.comp_apply, searchOutcome_gatedNode]
    · exact h
  exact ⟨hblock.count, hblock.level⟩

/-! ## The clamp -/

section Clamp
variable {pred pred' : Int → Int} (hpred : ∀ c, 1 ≤ c → pred c = pred' c)
include hpred

theorem removeCurrentFailure_congr {c : FoldCore} {k : Int} {n : Node}
    (hc : Counted (boardOf c)) (hget : c.st.nodes.get k = some n) :
    removeCurrentFailure pred c.st n = removeCurrentFailure pred' c.st n := by
  unfold removeCurrentFailure
  cases hn : countsAsCurrentFailure c.st n with
  | false => rfl
  | true =>
    have hlife : (boardOf c).lives.get k = some (lifeOf n) := by
      rw [get_boardOf, hget]
      rfl
    have hpos : 1 ≤ c.st.currentFailureCount :=
      one_le_failures hc hlife ((counts_lifeOf c.st n).trans hn)
    rw [hpred _ hpos]

variable (hexact : ∀ c, 1 ≤ c → pred c = c - 1)
include hexact

theorem tombstones_congr (ctx : FoldCtx) (raws : List Json) (acc : RunState × List Int)
    (hc : Counted (boardOf { st := acc.1, ctx := ctx })) :
    raws.foldl (tombstoneOne pred) acc = raws.foldl (tombstoneOne pred') acc := by
  induction raws generalizing acc with
  | nil => rfl
  | cons raw raws ih =>
    have hone : tombstoneOne pred acc raw = tombstoneOne pred' acc raw := by
      unfold tombstoneOne
      split
      · rfl
      · rename_i n hn
        obtain ⟨id, -, hget⟩ := Option.bind_eq_some_iff.mp hn
        rw [removeCurrentFailure_congr hpred (c := { st := acc.1, ctx := ctx }) hc hget]
    have hmoves : Moves pred .nothing { st := acc.1, ctx := ctx }
        { st := (tombstoneOne pred acc raw).1, ctx := ctx } := moves_tombstoneOne ctx acc raw
    rw [List.foldl_cons, List.foldl_cons, ← hone]
    exact ih _ (Evolves.counted hexact hmoves hc)

theorem stepWith_congr (env : Env) {s : FoldState} (e : Event)
    (hc : Counted (boardOf s.toFoldCore)) : stepWith pred env s e = stepWith pred' env s e := by
  unfold stepWith
  cases e.kind with
  | none => rfl
  | some t =>
    cases t with
    | nodeTombstoned =>
      show onNodeTombstoned pred s e = onNodeTombstoned pred' s e
      unfold onNodeTombstoned
      rw [tombstones_congr hpred hexact s.ctx _ (s.st, []) hc]
    | nodeReset =>
      show onNodeReset pred s e = onNodeReset pred' s e
      unfold onNodeReset
      dsimp only
      split
      · rfl
      · rename_i n hn
        unfold closeLifecycle
        rw [removeCurrentFailure_congr hpred hc (RunState.id_of_nodeForEvent hn).2]
    | nodeAbort =>
      have habort (nid : Int) : abortNode pred s.st nid = abortNode pred' s.st nid := by
        unfold abortNode
        cases hget : s.st.nodes.get nid with
        | none => rfl
        | some n =>
          dsimp only
          rw [removeCurrentFailure_congr hpred hc hget]
      show onNodeAbort pred s e = onNodeAbort pred' s e
      unfold onNodeAbort
      simp only [habort]
    | _ => rfl

end Clamp

theorem replay_unclamped (env : Env) (log : List Event) :
    log.foldl (stepWith (fun c => c - 1) env) {} = replay env log := by
  induction log using List.reverseRecOn with
  | nil => exact List.foldl_nil
  | append_singleton log e ih =>
    rw [replay_snoc, List.foldl_append, ih]
    exact (stepWith_congr (fun c h => clampedPred_of_pos c h) clampedPred_of_pos env e
      (replay_counted env log)).symm

/-- After every log the failure counter is the number of failed nodes that count and its level is
that number in threes, before and after the trust gate's pass; and the clamp of the decrement is
never needed. -/
theorem failure_count_exact (env : Env) (log : List Event) :
    TalliesFailures (replay env log).st ∧ TalliesFailures (fold env log) ∧
      log.foldl (stepWith (fun c => c - 1) env) {} = replay env log :=
  ⟨tallies_replay env log, tallies_applyTrustGate env (tallies_replay env log),
    replay_unclamped env log⟩

end LoopLab
