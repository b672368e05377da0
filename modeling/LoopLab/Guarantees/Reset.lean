import LoopLab.Lifecycles.Renewals
import LoopLab.Guarantees.FailureCount

/-!
# What a new lifecycle shows of the old one

A node whose next lifecycle opens, by a reset of it or by a rotation that re-queues it, should show nothing of the
old measurement until a row of the new lifecycle measures it.
-/

set_option autoImplicit false

namespace LoopLab
open Lib Board

/-- The event opens the next lifecycle of node `id`, which is `n` before it and `n'` after it. -/
structure Renews (env : Env) (s : FoldState) (e : Event) (id : Int) (n n' : Node) : Prop where
  before : s.st.nodes.get id = some n
  after : (step env s e).st.nodes.get id = some n'
  attempt : n'.attempt ≠ n.attempt

/-- No row of the tail measures `id`. -/
def Unmeasured (env : Env) (before tail : List Event) (id : Int) : Prop :=
  ∀ mid f, mid ++ [f] <+: tail → ¬ MeasuresNode (replay env (before ++ mid)).st f id

/-- `id` names a node whose every measured field holds its default. -/
def ShowsFresh (st : RunState) (id : Int) : Prop := ∃ n, st.nodes.get id = some n ∧ n.Fresh

/-- Wherever along the log a next lifecycle opens, its node shows nothing measured, at once and
until a row measures it. -/
def RenewalsForget (env : Env) (log : List Event) : Prop :=
  ∀ before e id n n', before ++ [e] <+: log → Renews env (replay env before) e id n n' →
    ∀ tail, before ++ [e] ++ tail <+: log → Unmeasured env (before ++ [e]) tail id →
      ShowsFresh (replay env (before ++ [e] ++ tail)).st id

/-- Every lifecycle that ends along the log leaves none of the missed traces. -/
def LeavesNoTrace (env : Env) (log : List Event) : Prop :=
  ∀ before e id n n', before ++ [e] <+: log → Renews env (replay env before) e id n n' →
    n.selfMetric = none ∧ n.activation = none ∧
      (n.agentReport = none ∨ ResetsNode (replay env before).st e n)

/-! ## One renewal -/

theorem renewing_of_renews {env : Env} {s : FoldState} {e : Event} {id : Int} {n n' : Node}
    (h : Renews env s e id n n') : ∃ t ∈ renewingTypes, e.kind = some t := by
  by_contra hno
  have hget : (boardOf s.toFoldCore).lives.get id = some (lifeOf n) := by
    rw [get_boardOf, h.before]
    rfl
  obtain ⟨l, hl, hatt⟩ := Evolves.attempt (stepWith_moves clampedPred env s e) hno hget
  have hafter : (boardOf (step env s e).toFoldCore).lives.get id = some (lifeOf n') := by
    rw [get_boardOf, h.after]
    rfl
  cases hl.symm.trans hafter
  exact h.attempt hatt

theorem rotated_of_carries {t t' : Table Node.id} (h : Carries Rotated t t') {id : Int}
    {n n' : Node} (hn : t.get id = some n) (hn' : t'.get id = some n') : Rotated n n' := by
  obtain ⟨m, hm, hr⟩ := h id n hn
  cases hm.symm.trans hn'
  exact hr

theorem renewal_spec {env : Env} {s : FoldState} {e : Event} {id : Int} {n n' : Node}
    (h : Renews env s e id n n') :
    n'.Scrubbed ∧ n'.selfMetric = n.selfMetric ∧ n'.activation = n.activation ∧
      ((ResetsNode s.st e n ∧ n'.agentReport = none) ∨
        (¬ ResetsNode s.st e n ∧ n'.agentReport = n.agentReport)) := by
  have of_rotated (hr : Rotated n n') (hno : ¬ ResetsNode s.st e n) :
      n'.Scrubbed ∧ n'.selfMetric = n.selfMetric ∧ n'.activation = n.activation ∧
        ((ResetsNode s.st e n ∧ n'.agentReport = none) ∨
          (¬ ResetsNode s.st e n ∧ n'.agentReport = n.agentReport)) :=
    ⟨hr.renewed h.attempt, hr.traces.selfMetric, hr.traces.activation,
      .inr ⟨hno, hr.traces.agentReport⟩⟩
  obtain ⟨t, ht, hk⟩ := renewing_of_renews h
  have hafter := h.after
  have other (hne : t ≠ .nodeReset) : ¬ ResetsNode s.st e n := by
    intro hr
    exact hne (Option.some.inj (hk.symm.trans hr.kind))
  unfold step stepWith at hafter
  rw [hk] at hafter
  simp only [renewingTypes, List.mem_cons, List.not_mem_nil, or_false] at ht
  rcases ht with rfl | rfl | rfl | rfl | rfl | rfl
  · exact of_rotated (carries_nodeCreated s e h.before hafter h.attempt) (other (by decide))
  · exact of_rotated (rotated_of_carries (carries_nodeTombstoned s e) h.before hafter) (other (by decide))
  · change (onNodeReset clampedPred s e).st.nodes.get id = some n' at hafter
    cases hn : s.st.nodeForEvent e.data with
    | none =>
      simp only [onNodeReset, hn, h.before] at hafter
      cases hafter
      exact absurd rfl h.attempt
    | some m =>
      cases hacc : acceptsReset m e.data with
      | false =>
        simp only [onNodeReset, hn, hacc, Bool.not_false, if_true, h.before] at hafter
        cases hafter
        exact absurd rfl h.attempt
      | true =>
        by_cases hid : id = m.id
        · subst hid
          have : m = n := by
            have hget := (RunState.id_of_nodeForEvent hn).2
            exact Option.some.inj (hget.symm.trans h.before)
          subst this
          obtain ⟨m', hm', -, hscrub, hself, hact, hrep⟩ := reset_node clampedPred hn hacc
          cases hm'.symm.trans hafter
          exact ⟨hscrub, hself, hact, .inl ⟨⟨hk, hn, hacc⟩, hrep⟩⟩
        · have hput : (s.st.nodes.put (reopenedNode s.st m e.data)).get id = some n := by
            rw [Table.get_put_ne (show id ≠ (reopenedNode s.st m e.data).id from hid)]
            exact h.before
          refine of_rotated (rotated_of_carries (nodes_nodeReset clampedPred hn hacc) hput hafter) fun hr => ?_
          have : m = n := Option.some.inj (hn.symm.trans hr.named)
          exact hid (this ▸ (Table.key_of_get h.before).symm)
  · exact of_rotated (rotated_of_carries (carries_nodeAbort s e) h.before hafter) (other (by decide))
  · exact of_rotated
      (rotated_of_carries (carries_resumeOrRunReopened s.toFoldCore e) h.before hafter) (other (by decide))
  · exact of_rotated
      (rotated_of_carries (carries_resumeOrRunReopened s.toFoldCore e) h.before hafter) (other (by decide))

theorem renewal_fresh_iff {env : Env} {s : FoldState} {e : Event} {id : Int} {n n' : Node}
    (h : Renews env s e id n n') :
    n'.Fresh ↔ n.selfMetric = none ∧ n.activation = none ∧
      (n.agentReport = none ∨ ResetsNode s.st e n) := by
  obtain ⟨hscrub, hself, hact, hrep⟩ := renewal_spec h
  rw [hscrub.fresh_iff, hself, hact]
  rcases hrep with ⟨hreset, hnone⟩ | ⟨hno, hsame⟩
  · simp [hnone, hreset]
  · simp [hsame, hno]

theorem renews_of_resets {env : Env} {s : FoldState} {e : Event} {n : Node}
    (h : ResetsNode s.st e n) : ∃ n', Renews env s e n.id n n' := by
  have hget := (RunState.id_of_nodeForEvent h.named).2
  have hstep : step env s e = onNodeReset clampedPred s e := by
    unfold step stepWith
    rw [h.kind]
    rfl
  have hreset := reset_node clampedPred h.named h.accepts
  rw [← hstep] at hreset
  obtain ⟨n', hn', hlt, -⟩ := hreset
  exact ⟨n', hget, hn', hlt.ne'⟩

/-! ## A whole run -/

theorem holdsAt_fresh_iff (c : FoldCore) (id : Int) :
    HoldsAt (fun l => l.record.Fresh) (boardOf c) id ↔ ShowsFresh c.st id := by
  unfold HoldsAt ShowsFresh
  rw [get_boardOf]
  cases c.st.nodes.get id <;> simp [lifeOf]

theorem showsFresh_unmeasured {env : Env} {before tail : List Event} {id : Int}
    (h : ShowsFresh (replay env before).st id) (hun : Unmeasured env before tail id) :
    ShowsFresh (replay env (before ++ tail)).st id := by
  induction tail using List.reverseRecOn with
  | nil => rwa [List.append_nil]
  | append_singleton tail f ih =>
    have hprev := ih fun mid g hmid => hun mid g (hmid.trans (List.prefix_append _ _))
    rw [← List.append_assoc, replay_snoc]
    rw [← holdsAt_fresh_iff] at hprev ⊢
    exact Evolves.freshAt (stepWith_moves clampedPred env _ f)
      (hun tail f (List.prefix_refl _)) hprev

def draftEvaluated (seq : Int) : Event where
  seq := seq
  type := "node_evaluated"
  data :=
    [("node_id", .int 0), ("generation", .int 0), ("metric", .float (1 / 2)),
     ("self_metric", .float (9 / 10)), ("eval_seconds", .int 5)]

def draftReset (seq : Int) : Event where
  seq := seq
  type := "node_reset"
  data := [("node_id", .int 0), ("generation", .int 0), ("from_stage", .str "eval")]

end LoopLab

/-!
## The stage ledger

An accepted stage row is appended to its node's ledger, and resets, terminals, repairs, tombstones and epoch
rotations leave the ledger alone.
-/

namespace LoopLab
open Lib Board

/-- The stage ledger of a node, empty for an unknown id. -/
def stageLedger (st : RunState) (id : Int) : List StageAttempt :=
  ((st.nodes.get id).map Node.stageAttempts).getD []

/-- The row a finished stage adds to the ledger of a node. -/
def stageAttempt (n : Node) (e : Event) : StageAttempt :=
  { toStageRow := stageRow n e.data, generation := n.attempt, seq := e.seq }

/-- The event re-creates in place a node whose ledger already holds rows. -/
def DropsLedger (env : Env) (st : RunState) (e : Event) : Prop :=
  ∃ id, RebuildsNode env st e id ∧ stageLedger st id ≠ []

/-- No step of the log drops a ledger. -/
def DropsNoLedger (env : Env) (log : List Event) : Prop :=
  ∀ before e, before ++ [e] <+: log → ¬ DropsLedger env (replay env before).st e

/-- In the state folded from every extension within the log, the row an accepted stage event appended
stands in its node's ledger where it was appended. -/
def StageRowsKept (env : Env) (log : List Event) : Prop :=
  ∀ before e n tail, before ++ e :: tail <+: log → AcceptsStageRow (replay env before).st e n →
    stageLedger (fold env before) n.id ++ [stageAttempt n e] <+:
      stageLedger (fold env (before ++ e :: tail)) n.id

/-! ## One step -/

theorem ledger_boardOf (c : FoldCore) (id : Int) : (boardOf c).ledger id = stageLedger c.st id := by
  unfold ledger stageLedger
  rw [get_boardOf, Option.map_map]
  rfl

theorem stageLedger_step {env : Env} {s : FoldState} {e : Event} (h : ¬ DropsLedger env s.st e)
    (id : Int) : stageLedger s.st id <+: stageLedger (step env s e).st id := by
  by_cases hre : RebuildsNode env s.st e id
  · have hnil : stageLedger s.st id = [] := by
      by_contra hne
      exact h ⟨id, hre, hne⟩
    rw [hnil]
    exact List.nil_prefix
  · have := Evolves.ledger (stepWith_moves clampedPred env s e) hre
    rwa [ledger_boardOf, ledger_boardOf] at this

theorem stageLedger_rebuilt {env : Env} {s : FoldState} {e : Event} {id : Int}
    (h : RebuildsNode env s.st e id) : stageLedger (step env s e).st id = [] := by
  obtain ⟨hkind, hid, hsome, hacc⟩ := h
  obtain ⟨n, hn⟩ := Option.isSome_iff_exists.mp hacc
  obtain ⟨hnid, -, -, -, hled, -⟩ := acceptedCreation_spec hn
  have hstep : (step env s e).st = s.st.setNode n := by
    have hhas : s.st.nodes.has id = true := hsome
    unfold step stepWith
    rw [hkind]
    simp only [handle, onNodeCreated, hid, hn, hhas, if_true]
  rw [hstep]
  unfold stageLedger RunState.setNode
  rw [← hnid, Table.get_put_self]
  exact hled

theorem stageLedger_accepted {env : Env} {s : FoldState} {e : Event} {n : Node}
    (h : AcceptsStageRow s.st e n) :
    stageLedger (step env s e).st n.id = stageLedger s.st n.id ++ [stageAttempt n e] := by
  have hstep : (step env s e).st = s.st.setNode (stagedNode n e) := by
    unfold step stepWith
    rw [h.kind]
    simp only [handle, FoldState.lift, onStageFinished, h.named, h.accepts, if_true]
  have hget := (RunState.id_of_nodeForEvent h.named).2
  have hput : (s.st.nodes.put (stagedNode n e)).get n.id = some (stagedNode n e) :=
    Table.get_put_self s.st.nodes (stagedNode n e)
  rw [hstep]
  unfold stageLedger RunState.setNode
  rw [hput, hget]
  rfl

/-! ## A whole run -/

theorem stageLedger_fold (env : Env) (log : List Event) (id : Int) :
    stageLedger (fold env log) id = stageLedger (replay env log).st id := by
  have hgate (st : RunState) (n : Node) : (gatedNode env st n).stageAttempts = n.stageAttempts := by
    unfold gatedNode
    split <;> rfl
  show stageLedger (blockFlagged env (replay env log).st) id = _
  unfold blockFlagged
  split
  · unfold stageLedger RunState.mapNodes
    rw [Table.get_mapRows, Option.map_map]
    congr 2
    exact funext fun n => hgate _ n
  · rfl

theorem stageLedger_grows {env : Env} {log before tail : List Event} (h : DropsNoLedger env log)
    (hlog : before ++ tail <+: log) (id : Int) :
    stageLedger (replay env before).st id <+: stageLedger (replay env (before ++ tail)).st id := by
  induction tail using List.reverseRecOn with
  | nil =>
    rw [List.append_nil]
  | append_singleton tail e ih =>
    rw [← List.append_assoc] at hlog ⊢
    refine (ih ((List.prefix_append _ _).trans hlog)).trans ?_
    rw [replay_snoc]
    exact stageLedger_step (h _ e hlog) id

theorem exists_accepted {env : Env} {log : List Event} {id : Int}
    (h : stageLedger (replay env log).st id ≠ []) :
    ∃ before e n tail, log = before ++ e :: tail ∧ n.id = id ∧
      AcceptsStageRow (replay env before).st e n := by
  induction log using List.reverseRecOn with
  | nil => exact absurd rfl h
  | append_singleton log e ih =>
    by_cases hgrow : (stepMay env (replay env log).st e).grows id
    · obtain ⟨n, hn, hid⟩ := hgrow
      exact ⟨log, e, n, [], rfl, hid, hn⟩
    · have hold : stageLedger (replay env log).st id ≠ [] := by
        intro hnil
        have := Evolves.ledger_nil (stepWith_moves clampedPred env (replay env log) e) hgrow
          ((ledger_boardOf _ id).trans hnil)
        rw [ledger_boardOf] at this
        rw [replay_snoc] at h
        exact h this
      obtain ⟨before, f, n, tail, hlog, hid, hn⟩ := ih hold
      exact ⟨before, f, n, tail ++ [e], by rw [hlog]; simp, hid, hn⟩

theorem stageRowsKept_of_dropsNoLedger {env : Env} {log : List Event} (h : DropsNoLedger env log) :
    StageRowsKept env log := by
  intro before e n tail hlog hn
  have hcons : before ++ e :: tail = (before ++ [e]) ++ tail := by simp
  have hgrow := stageLedger_grows h (hcons ▸ hlog) n.id
  rw [replay_snoc, stageLedger_accepted hn] at hgrow
  rw [stageLedger_fold, stageLedger_fold, hcons]
  exact hgrow

theorem dropsNoLedger_of_stageRowsKept {env : Env} {log : List Event} (h : StageRowsKept env log) :
    DropsNoLedger env log := by
  rintro before e hlog ⟨id, hre, hne⟩
  obtain ⟨first, f, n, tail, rfl, rfl, hn⟩ := exists_accepted hne
  have hkept := h first f n (tail ++ [e]) (by simpa using hlog) hn
  have hcons : first ++ f :: (tail ++ [e]) = (first ++ f :: tail) ++ [e] := by simp
  rw [stageLedger_fold, stageLedger_fold, hcons, replay_snoc, stageLedger_rebuilt hre] at hkept
  have := List.prefix_nil.mp hkept
  simp at this

/-- Along a log every accepted stage row is kept exactly when no creation row is accepted in place
for a node whose ledger already holds rows. -/
theorem stage_ledger_append_only (env : Env) (log : List Event) :
    StageRowsKept env log ↔ DropsNoLedger env log :=
  ⟨dropsNoLedger_of_stageRowsKept, stageRowsKept_of_dropsNoLedger⟩

def trainFinished (seq : Int) : Event where
  seq := seq
  type := "stage_finished"
  data :=
    [("node_id", .int 0), ("generation", .int 0), ("name", .str "train"), ("status", .str "ok"),
     ("exit_code", .int 0), ("seconds", .int 7)]

/-- The row of the finished stage is in the ledger, and gone once the node is created again. -/
theorem stage_row_dropped :
    stageLedger (fold .plain [draftCreated 0, trainFinished 1]) 0 ≠ [] ∧
      stageLedger (fold .plain [draftCreated 0, trainFinished 1, draftCreated 2]) 0 = [] ∧
      ¬ StageRowsKept .plain [draftCreated 0, trainFinished 1, draftCreated 2] := by
  have hrow : (stageLedger (replay .plain [draftCreated 0, trainFinished 1]).st 0).length = 1 := by
    decide +kernel
  have hne : stageLedger (replay .plain [draftCreated 0, trainFinished 1]).st 0 ≠ [] := by
    intro hnil
    rw [hnil] at hrow
    cases hrow
  have hre : RebuildsNode .plain (replay .plain [draftCreated 0, trainFinished 1]).st
      (draftCreated 2) 0 := ⟨by decide, by decide, by decide +kernel, by decide +kernel⟩
  refine ⟨by rwa [stageLedger_fold], ?_, fun h => ?_⟩
  · rw [stageLedger_fold]
    exact stageLedger_rebuilt (s := replay .plain [draftCreated 0, trainFinished 1]) hre
  · exact dropsNoLedger_of_stageRowsKept h [draftCreated 0, trainFinished 1] (draftCreated 2)
      (List.prefix_refl _) ⟨0, hre, hne⟩

end LoopLab
