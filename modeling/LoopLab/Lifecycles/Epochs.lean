import LoopLab.Lifecycles.View

/-!
# Epoch rotations and lifecycle changes on the board

The shared operations of the fold, seen on the board: rotations sweep it, creations place or rebuild
a life, terminals settle one, and the three control events renew, delete or abort one.
-/

set_option autoImplicit false

namespace LoopLab
open Lib Board

section Moves
variable {pred : Int → Int} {may : May Int}

/-! ## Fresh records -/

theorem Node.Fresh.verifierScore {n : Node} (h : n.Fresh) : n.verifierScore = none :=
  (congrArg Node.verifierScore h).symm

theorem Node.Fresh.forgetHoldout {n : Node} (st : RunState) (h : n.Fresh) :
    (forgetHoldout st n).Fresh := by
  unfold LoopLab.forgetHoldout
  split
  · exact h
  · rw [h.verifierScore, ite_self]
    exact congrArg (fun m : Node => { m with verifierScore := none, holdoutMetric := none }) h

theorem Node.Fresh.requeuedNode {n : Node} (h : n.Fresh) : (requeuedNode n).Fresh := by
  have hself : n.selfMetric = none := (congrArg Node.selfMetric h).symm
  have hact : n.activation = none := (congrArg Node.activation h).symm
  have hrep : n.agentReport = none := (congrArg Node.agentReport h).symm
  unfold Node.Fresh Node.cleared LoopLab.requeuedNode
  rw [hself, hact, hrep]

theorem Node.Fresh.resetNode {n : Node} (stage : Json) (clear : Bool) (h : n.Fresh) :
    (resetNode n stage clear).Fresh := by
  have hself : n.selfMetric = none := (congrArg Node.selfMetric h).symm
  have hact : n.activation = none := (congrArg Node.activation h).symm
  unfold Node.Fresh Node.cleared LoopLab.resetNode
  rw [hself, hact]

theorem fresh_newNode {env : Env} {st : RunState} {e : Event} {nid : Int} {g : Nat} {n : Node}
    (h : newNode env st e nid g = some n) :
    n.Fresh ∧ n.id = nid ∧ n.attempt = g ∧ n.status = .pending ∧ n.tombstoned = false ∧
      n.stageAttempts = [] := by
  unfold newNode at h
  simp only at h
  split at h
  · cases h
  · simp only [Option.bind_eq_bind, Option.bind_eq_some_iff] at h
    obtain ⟨idea, -, gens, -, h⟩ := h
    split at h
    · cases h
    · cases h
      exact ⟨rfl, rfl, rfl, rfl, rfl, rfl⟩

/-! ## Rotations -/

theorem sameLife_forgetHoldout (st : RunState) (n : Node) : SameLife n (forgetHoldout st n) := by
  unfold forgetHoldout
  split
  · exact ⟨rfl, rfl, rfl, rfl, rfl⟩
  · exact ⟨rfl, rfl, rfl, rfl, rfl⟩

theorem renewal_requeuedNode (n : Node) :
    Renewal Node.Fresh (lifeOf n) (lifeOf (requeuedNode n)) where
  id := rfl
  attempt := rfl
  phase := rfl
  deleted := rfl
  ledger := rfl
  record := Node.Fresh.requeuedNode

theorem moves_requeueNodes (c : FoldCore) (fresh : List Int) (hren : ∀ id, may.renews id) :
    Moves pred may c { c with st := requeueNodes c.st fresh } := by
  refine moves_mapNodes (fun n => by split <;> rfl) fun n _ => ?_
  split
  · rename_i hb
    refine .inr ⟨?_, hren n.id, renewal_requeuedNode n⟩
    simp only [partitionBound, Bool.not_eq_true', Bool.or_eq_false_iff] at hb
    simpa using hb.2
  · exact .inl ⟨⟨rfl, rfl, rfl, rfl, rfl⟩, fun h => h⟩

theorem moves_requeue (c : FoldCore) (fresh : List Int) (hren : ∀ id, may.renews id) :
    Moves pred may c { c with st := requeuePartitionBoundResults c.st fresh } := by
  refine (moves_requeueNodes c fresh hren).trans (Moves.of_eq ?_)
  unfold requeuePartitionBoundResults
  dsimp only
  split <;> rfl

theorem moves_lapseHoldout (c : FoldCore) :
    Moves pred may c { c with st := lapseHoldout c.st } :=
  moves_mapNodes _ fun n _ =>
    .inl ⟨sameLife_forgetHoldout c.st n, Node.Fresh.forgetHoldout c.st⟩

theorem moves_nextEpoch (c : FoldCore) :
    Moves pred may c { c with st := nextEpoch c.st } := Moves.of_eq rfl

theorem moves_rotate (c : FoldCore) (requeue : Bool) (fresh : List Int)
    (hren : ∀ id, may.renews id) :
    Moves pred may c { c with st := rotateSearchEpoch c.st requeue fresh } := by
  have hlapse : Moves pred may c { c with st := lapseHoldout (nextEpoch c.st) } :=
    (moves_nextEpoch c).trans (moves_lapseHoldout { c with st := nextEpoch c.st })
  unfold rotateSearchEpoch
  split
  · exact hlapse.trans (moves_requeue _ fresh hren)
  · exact hlapse

theorem moves_invalidateHoldout (c : FoldCore) (fresh : List Int) (hren : ∀ id, may.renews id) :
    Moves pred may c { c with st := invalidateDisclosedHoldout c.st fresh } := by
  unfold invalidateDisclosedHoldout
  split
  · exact .refl
  · exact moves_rotate c _ fresh hren

theorem moves_certificates (c : FoldCore) :
    Moves pred may c (invalidateCompletionCertificates c) := Moves.of_eq rfl

/-! ## Creation and settlement -/

theorem creationGeneration_current {n : Node} {d : Obj} {g : Nat}
    (h : creationGeneration (some n) d = some g) : g = n.attempt := by
  unfold creationGeneration at h
  split at h <;> simp_all

theorem acceptedCreation_spec {env : Env} {st : RunState} {e : Event} {nid : Int} {n : Node}
    (h : acceptedCreation env st e nid = some n) :
    n.id = nid ∧ n.Fresh ∧ n.status = .pending ∧ n.tombstoned = false ∧ n.stageAttempts = [] ∧
      ∀ old, st.nodes.get nid = some old →
        old.status = .pending ∧ old.tombstoned = false ∧ n.attempt = old.attempt := by
  unfold acceptedCreation at h
  simp only at h
  split at h
  · cases h
  · rename_i hguard
    split at h
    · cases h
    · rename_i hdead
      simp only [Option.bind_eq_bind, Option.bind_eq_some_iff] at h
      obtain ⟨g, hg, h⟩ := h
      obtain ⟨hfresh, hid, hatt, hst, htomb, hled⟩ := fresh_newNode h
      refine ⟨hid, hfresh, hst, htomb, hled, ?_⟩
      intro old hold
      rw [hold] at hguard hdead hg
      refine ⟨?_, ?_, hatt.trans (creationGeneration_current hg)⟩
      · simp only [Option.any_some, Bool.or_eq_true, not_or] at hguard
        simpa using hguard.1
      · simp only [Option.any_some, Bool.or_eq_true, not_or] at hdead
        simpa using hdead.2

theorem moves_create {c : FoldCore} {env : Env} {e : Event} {nid : Int} {n : Node}
    (h : acceptedCreation env c.st e nid = some n)
    (hre : (c.st.nodes.get nid).isSome → may.rebuilds nid) :
    Moves pred may c { c with st := c.st.setNode n } := by
  obtain ⟨hid, hfresh, hst, htomb, hled, hold⟩ := acceptedCreation_spec h
  have hblank : Blank Node.Fresh (lifeOf n) := ⟨phaseOf_pending.mpr hst, htomb, hled, hfresh⟩
  cases hget : c.st.nodes.get nid with
  | none =>
    refine Moves.of_step (boardOf_setNode c n) (.place _ _ ?_ hblank)
    show (boardOf c).lives.get n.id = none
    rw [hid, get_boardOf, hget]
    rfl
  | some old =>
    obtain ⟨hpend, hdel, hatt⟩ := hold old hget
    refine Moves.of_step (boardOf_setNode c n) (.rebuild _ (lifeOf old) _ ?_ ?_
      (phaseOf_pending.mpr hpend) hdel hatt hblank)
    · show (boardOf c).lives.get n.id = _
      rw [hid, get_boardOf, hget]
      rfl
    · show may.rebuilds n.id
      rw [hid]
      exact hre (by rw [hget]; rfl)

theorem moves_settle {c c' : FoldCore} {n n' : Node} (hget : c.st.nodes.get n.id = some n)
    (hpend : n.status = .pending) (hid : n'.id = n.id) (hatt : n'.attempt = n.attempt)
    (htomb : n'.tombstoned = n.tombstoned) (hled : n'.stageAttempts = n.stageAttempts)
    (hnew : n'.status ≠ .pending) (hw : may.writes n.id)
    (hkey : (n.id, n.attempt) ∈ c.ctx.chargedTerminalGenerations)
    (hc' : boardOf c' = { boardOf c with
      lives := (boardOf c).lives.put (lifeOf n')
      failures := (boardOf c).addFailure (lifeOf n') }) :
    Moves pred may c c' := by
  refine Moves.of_step hc' (.settle _ (lifeOf n) (lifeOf n') ?_
    (phaseOf_pending.mpr hpend) ?_ hatt htomb hled ?_ ?_)
  · show (boardOf c).lives.get n'.id = _
    rw [hid, get_boardOf, hget]
    rfl
  · exact fun h => hnew (phaseOf_pending.mp h)
  · show may.writes n'.id
    rw [hid]
    exact hw
  · show (n'.id, n'.attempt) ∈ c.ctx.chargedTerminalGenerations
    rw [hid, hatt]
    exact hkey

/-! ## Reset, tombstone and abort -/

theorem boardOf_removeCurrentFailure (pred : Int → Int) (c : FoldCore) (n : Node) :
    boardOf { c with st := removeCurrentFailure pred c.st n } =
      { boardOf c with failures := (boardOf c).dropFailure pred (some (lifeOf n)) } := by
  have hcounts : counts (boardOf c).aborted (lifeOf n) = countsAsCurrentFailure c.st n :=
    counts_lifeOf c.st n
  unfold removeCurrentFailure dropFailure
  simp only [Option.any_some, hcounts]
  cases countsAsCurrentFailure c.st n <;> rfl

theorem moves_renew {c c' : FoldCore} {n n' : Node} (hget : c.st.nodes.get n.id = some n)
    (hmay : may.renews n.id)
    (hl : Renewal Node.Fresh (lifeOf n) (lifeOf n'))
    (hc' : boardOf c' = { boardOf c with
      lives := (boardOf c).lives.put (lifeOf n')
      failures := (boardOf c).dropFailure pred (some (lifeOf n))
      aborted := c.st.abortedNodes.filter (· ≠ n.id) }) :
    Moves pred may c c' := by
  have hid : n'.id = n.id := hl.id
  refine Moves.of_step (hc'.trans ?_) (.renew _ (lifeOf n) (lifeOf n') ?_ ?_ hl)
  · show _ = { boardOf c with
      lives := (boardOf c).lives.put (lifeOf n')
      failures := (boardOf c).dropFailure pred (some (lifeOf n))
      aborted := c.st.abortedNodes.filter (· ≠ n'.id) }
    rw [hid]
  · show (boardOf c).lives.get n'.id = _
    rw [hid, get_boardOf, hget]
    rfl
  · show may.renews n'.id
    rw [hid]
    exact hmay

theorem renewal_resetNode (n : Node) (stage : Json) (clear : Bool) :
    Renewal Node.Fresh (lifeOf n) (lifeOf (resetNode n stage clear)) where
  id := rfl
  attempt := rfl
  phase := rfl
  deleted := rfl
  ledger := rfl
  record := Node.Fresh.resetNode stage clear

theorem nodes_removeCurrentFailure (st : RunState) (n : Node) :
    (removeCurrentFailure pred st n).nodes = st.nodes := by
  unfold removeCurrentFailure
  split <;> rfl

theorem moves_tombstoneOne (ctx : FoldCtx) (acc : RunState × List Int) (raw : Json) :
    Moves pred may { st := acc.1, ctx := ctx }
      { st := (tombstoneOne pred acc raw).1, ctx := ctx } := by
  unfold tombstoneOne
  split
  · exact .refl
  · rename_i n hn
    obtain ⟨id, -, hget⟩ := Option.bind_eq_some_iff.mp hn
    have hid := Table.key_of_get hget
    subst hid
    split
    · exact .refl
    · set n' : Node := { n with tombstoned := true, rerunFrom := .null, rerunStage := .null }
      have hfail := boardOf_removeCurrentFailure pred { st := acc.1, ctx := ctx } n
      refine Moves.of_step (b := { boardOf { st := acc.1, ctx := ctx } with
        lives := (boardOf { st := acc.1, ctx := ctx }).lives.put (lifeOf n')
        failures := (boardOf { st := acc.1, ctx := ctx }).dropFailure pred (some (lifeOf n)) })
        ?_ (.delete _ (lifeOf n) (lifeOf n') ?_ rfl rfl rfl rfl ?_)
      · dsimp only
        rw [boardOf_setNode { st := removeCurrentFailure pred acc.1 n, ctx := ctx } n', hfail]
      · show (boardOf { st := acc.1, ctx := ctx }).lives.get n.id = _
        rw [get_boardOf, hget]
        rfl
      · exact congrArg fun m : Node =>
          { m with tombstoned := true, rerunFrom := .null, rerunStage := .null }

theorem moves_tombstone (ctx : FoldCtx) (raws : List Json) (acc : RunState × List Int) :
    Moves pred may { st := acc.1, ctx := ctx }
      { st := (raws.foldl (tombstoneOne pred) acc).1, ctx := ctx } := by
  induction raws generalizing acc with
  | nil => exact .refl
  | cons raw raws ih => exact (moves_tombstoneOne ctx acc raw).trans (ih _)

theorem moves_dropAffected (c : FoldCore) (affected : List Int) :
    Moves pred may c { c with st := dropAffected c.st affected } := by
  apply Moves.of_eq
  unfold dropAffected
  dsimp only
  split <;> split <;> split <;> rfl

end Moves

end LoopLab
