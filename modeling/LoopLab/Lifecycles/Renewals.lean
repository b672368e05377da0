import LoopLab.Lifecycles.Simulation

/-!
# What a renewal leaves on a node

A reset row renews the node it names, an epoch rotation the incumbents it re-queues; nothing else opens a next
lifecycle.
-/

set_option autoImplicit false

namespace LoopLab
open Lib Board

def Node.withoutTraces (n : Node) : Node :=
  { n with selfMetric := none, activation := none, agentReport := none }

def Node.Scrubbed (n : Node) : Prop := n.withoutTraces.Fresh

theorem Node.Fresh.traces {n : Node} (h : n.Fresh) :
    n.selfMetric = none ∧ n.activation = none ∧ n.agentReport = none :=
  ⟨(congrArg Node.selfMetric h).symm, (congrArg Node.activation h).symm,
    (congrArg Node.agentReport h).symm⟩

theorem Node.Scrubbed.fresh_iff {n : Node} (h : n.Scrubbed) :
    n.Fresh ↔ n.selfMetric = none ∧ n.activation = none ∧ n.agentReport = none := by
  refine ⟨Node.Fresh.traces, fun ⟨hself, hact, hrep⟩ => ?_⟩
  have : n.withoutTraces = n := by
    unfold Node.withoutTraces
    rw [← hself, ← hact, ← hrep]
  unfold Node.Scrubbed at h
  rwa [this] at h

structure SameTraces (n m : Node) : Prop where
  selfMetric : m.selfMetric = n.selfMetric
  activation : m.activation = n.activation
  agentReport : m.agentReport = n.agentReport

theorem SameTraces.trans {a b c : Node} (h : SameTraces a b) (h' : SameTraces b c) :
    SameTraces a c :=
  ⟨h'.selfMetric.trans h.selfMetric, h'.activation.trans h.activation,
    h'.agentReport.trans h.agentReport⟩

structure Rotated (n n' : Node) : Prop where
  traces : SameTraces n n'
  scrubbed : n.Scrubbed → n'.Scrubbed
  le : n.attempt ≤ n'.attempt
  renewed : n'.attempt ≠ n.attempt → n'.Scrubbed

/-- The table holds every node of the other one, as `R` allows. -/
def Carries (R : Node → Node → Prop) (t t' : Table Node.id) : Prop :=
  ∀ id n, t.get id = some n → ∃ n', t'.get id = some n' ∧ R n n'

structure Untouched (n m : Node) : Prop where
  traces : SameTraces n m
  attempt : m.attempt = n.attempt
  scrubbed : n.Scrubbed → m.Scrubbed

theorem Untouched.refl (n : Node) : Untouched n n := ⟨⟨rfl, rfl, rfl⟩, rfl, fun h => h⟩

theorem Untouched.rotated {n m n' : Node} (h : Untouched n m) (h' : Rotated m n') :
    Rotated n n' where
  traces := h.traces.trans h'.traces
  scrubbed := fun hn => h'.scrubbed (h.scrubbed hn)
  le := h.attempt ▸ h'.le
  renewed := fun hne => h'.renewed (h.attempt ▸ hne)

theorem Rotated.of_untouched {n m : Node} (h : Untouched n m) : Rotated n m :=
  ⟨h.traces, h.scrubbed, h.attempt.ge, fun hne => absurd h.attempt hne⟩

theorem Carries.trans {R S T : Node → Node → Prop} {t u v : Table Node.id}
    (hRS : ∀ {a b c}, R a b → S b c → T a c) (h : Carries R t u) (h' : Carries S u v) :
    Carries T t v := by
  intro id n hn
  obtain ⟨m, hm, hr⟩ := h id n hn
  obtain ⟨n', hn', hs⟩ := h' id m hm
  exact ⟨n', hn', hRS hr hs⟩

theorem Carries.of_eq {R : Node → Node → Prop} {t t' : Table Node.id} (hR : ∀ n, R n n)
    (h : t' = t) : Carries R t t' := by
  subst h
  exact fun id n hn => ⟨n, hn, hR n⟩

theorem carries_mapNodes {R : Node → Node → Prop} (st : RunState) (f : Node → Node)
    (hid : ∀ n, (f n).id = n.id) (hf : ∀ n, R n (f n)) :
    Carries R st.nodes (st.mapNodes f hid).nodes := by
  intro id n hn
  exact ⟨f n, by unfold RunState.mapNodes; rw [Table.get_mapRows, hn]; rfl, hf n⟩

theorem carries_setNode {R : Node → Node → Prop} {st : RunState} {m : Node} (hR : ∀ n, R n n)
    (hm : ∀ n, st.nodes.get m.id = some n → R n m) : Carries R st.nodes (st.setNode m).nodes := by
  intro id n hn
  by_cases hid : id = m.id
  · subst hid
    exact ⟨m, Table.get_put_self _ _, hm n hn⟩
  · exact ⟨n, by unfold RunState.setNode; rw [Table.get_put_ne hid]; exact hn, hR n⟩

/-! ## Rotations -/

theorem untouched_forgetHoldout (st : RunState) (n : Node) : Untouched n (forgetHoldout st n) := by
  unfold forgetHoldout
  split
  · exact .refl n
  · refine ⟨⟨rfl, rfl, rfl⟩, rfl, fun h => ?_⟩
    have hver : n.verifierScore = none := (congrArg Node.verifierScore h).symm
    rw [hver, ite_self]
    exact congrArg (fun m : Node => { m with verifierScore := none, holdoutMetric := none }) h

theorem rotated_requeuedNode (n : Node) : Rotated n (requeuedNode n) :=
  ⟨⟨rfl, rfl, rfl⟩, fun _ => rfl, Nat.le_succ _, fun _ => rfl⟩

theorem nodes_requeue (st : RunState) (fresh : List Int) :
    (requeuePartitionBoundResults st fresh).nodes = (requeueNodes st fresh).nodes := by
  unfold requeuePartitionBoundResults
  dsimp only
  split <;> rfl

theorem carries_rotate (st : RunState) (requeue : Bool) (fresh : List Int) :
    Carries Rotated st.nodes (rotateSearchEpoch st requeue fresh).nodes := by
  have hlapse : Carries Untouched st.nodes (lapseHoldout (nextEpoch st)).nodes :=
    carries_mapNodes (nextEpoch st) _ _ (untouched_forgetHoldout (nextEpoch st))
  unfold rotateSearchEpoch
  split
  · rw [nodes_requeue]
    refine Carries.trans (R := Untouched) (S := Rotated) (T := Rotated) Untouched.rotated hlapse (carries_mapNodes _ _ _ fun n => ?_)
    split
    · exact rotated_requeuedNode n
    · exact Rotated.of_untouched (.refl n)
  · exact fun id n hn => (hlapse id n hn).imp fun m hm => ⟨hm.1, Rotated.of_untouched hm.2⟩

theorem carries_invalidateHoldout (st : RunState) (fresh : List Int) :
    Carries Rotated st.nodes (invalidateDisclosedHoldout st fresh).nodes := by
  unfold invalidateDisclosedHoldout
  split
  · exact Carries.of_eq (fun n => Rotated.of_untouched (.refl n)) rfl
  · exact carries_rotate st _ fresh

theorem carries_rotateAfterReset (before st : RunState) (d : Obj) (nid : Int) :
    Carries Rotated st.nodes (rotateAfterReset before st d nid).nodes := by
  unfold rotateAfterReset
  split
  · exact carries_rotate st true [nid]
  · split
    · exact carries_rotate st false []
    · exact Carries.of_eq (fun n => Rotated.of_untouched (.refl n)) rfl

/-! ## The events that rotate -/

section Events
variable {pred : Int → Int} {env : Env}

theorem carries_nodeCreated (s : FoldState) (e : Event) {id : Int} {n n' : Node}
    (hn : s.st.nodes.get id = some n) (hn' : (onNodeCreated env s e).st.nodes.get id = some n')
    (hne : n'.attempt ≠ n.attempt) : Rotated n n' := by
  have same {t : Table Node.id} (ht : t = s.st.nodes) (h : t.get id = some n') : Rotated n n' := by
    rw [ht, hn] at h
    cases h
    exact absurd rfl hne
  unfold onNodeCreated at hn'
  split at hn'
  · exact same rfl hn'
  · rename_i nid hnid
    split at hn'
    · split at hn' <;> exact same rfl hn'
    · rename_i m hm
      obtain ⟨hid, -, -, -, -, hold⟩ := acceptedCreation_spec hm
      have hput (hid' : id = nid) : n.attempt = m.attempt :=
        ((hold n (hid' ▸ hn)).2.2).symm
      have hset : Carries (fun a b => b.attempt = a.attempt ∧ (a.id = nid ∨ b = a)) s.st.nodes
          (s.st.setNode m).nodes := by
        refine carries_setNode (fun _ => ⟨rfl, .inr rfl⟩) fun a ha => ?_
        rw [hid] at ha
        exact ⟨(hold a ha).2.2, .inl (Table.key_of_get ha)⟩
      obtain ⟨k, hk, hatt, hsame⟩ := hset id n hn
      dsimp only at hn'
      split at hn'
      · rw [show (s.st.setNode m).nodes.get id = _ from hk] at hn'
        cases hn'
        exact absurd hatt hne
      · rename_i hnew
        have hnid' : n.id ≠ nid := by
          intro he
          have hkey := Table.key_of_get hn
          refine hnew ?_
          unfold Table.has
          rw [← he, hkey, hn]
          rfl
        have hkn : k = n := hsame.resolve_left hnid'
        obtain ⟨r, hr, hrot⟩ := carries_invalidateHoldout (s.st.setNode m) [nid] id k hk
        have : r = n' := Option.some.inj (hr.symm.trans hn')
        rw [← this, ← hkn]
        exact hrot

theorem carries_reopenSearch (c : FoldCore) : Carries Rotated c.st.nodes
    (invalidateDisclosedHoldout (invalidateCompletionCertificates c).st).nodes :=
  carries_invalidateHoldout (invalidateCompletionCertificates c).st []

theorem untouched_tombstoned (n : Node) :
    Untouched n { n with tombstoned := true, rerunFrom := .null, rerunStage := .null } := by
  refine ⟨⟨rfl, rfl, rfl⟩, rfl, fun h => ?_⟩
  unfold Node.Scrubbed at h ⊢
  exact congrArg (fun m : Node =>
    { m with tombstoned := true, rerunFrom := .null, rerunStage := .null }) h

theorem carries_tombstoneOne (acc : RunState × List Int) (raw : Json) :
    Carries Untouched acc.1.nodes (tombstoneOne pred acc raw).1.nodes := by
  unfold tombstoneOne
  split
  · exact Carries.of_eq .refl rfl
  · rename_i n hn
    split
    · exact Carries.of_eq .refl rfl
    · obtain ⟨id, -, hget⟩ := Option.bind_eq_some_iff.mp hn
      have hkey := Table.key_of_get hget
      have hnodes : (removeCurrentFailure pred acc.1 n).nodes = acc.1.nodes :=
        nodes_removeCurrentFailure acc.1 n
      dsimp only
      rw [← hnodes]
      refine carries_setNode .refl fun m hm => ?_
      rw [hnodes] at hm
      have : m = n := by
        rw [hkey, hget] at hm
        exact (Option.some.inj hm).symm
      rw [this]
      exact untouched_tombstoned n

theorem Untouched.trans {a b c : Node} (h : Untouched a b) (h' : Untouched b c) : Untouched a c :=
  ⟨h.traces.trans h'.traces, h'.attempt.trans h.attempt, fun hn => h'.scrubbed (h.scrubbed hn)⟩

variable (pred) in
theorem carries_tombstones (raws : List Json) (acc : RunState × List Int) :
    Carries Untouched acc.1.nodes (raws.foldl (tombstoneOne pred) acc).1.nodes := by
  induction raws generalizing acc with
  | nil => exact Carries.of_eq .refl rfl
  | cons raw raws ih =>
    exact Carries.trans (R := Untouched) (S := Untouched) (T := Untouched) Untouched.trans
      (carries_tombstoneOne acc raw) (ih _)

theorem nodes_dropAffected (st : RunState) (affected : List Int) :
    (dropAffected st affected).nodes = st.nodes := by
  unfold dropAffected
  dsimp only
  split <;> split <;> split <;> rfl

theorem carries_nodeTombstoned (s : FoldState) (e : Event) :
    Carries Rotated s.st.nodes (onNodeTombstoned pred s e).st.nodes := by
  unfold onNodeTombstoned
  have hdel := carries_tombstones pred ((e.data.get "node_ids").arr?.getD []) (s.st, [])
  generalize ((e.data.get "node_ids").arr?.getD []).foldl (tombstoneOne pred) (s.st, []) = acc
    at hdel ⊢
  obtain ⟨st, affected⟩ := acc
  dsimp only at hdel ⊢
  rw [← nodes_dropAffected st affected] at hdel
  split
  · exact Carries.of_eq (fun n => Rotated.of_untouched (.refl n)) rfl
  · split
    · exact fun id n hn => (hdel id n hn).imp fun m hm => ⟨hm.1, Rotated.of_untouched hm.2⟩
    · exact Carries.trans (R := Untouched) (S := Rotated) (T := Rotated) Untouched.rotated hdel
        (carries_reopenSearch { st := dropAffected st affected, ctx := s.ctx })

theorem nodes_abortNode (st : RunState) (nid : Int) : (abortNode pred st nid).nodes = st.nodes := by
  unfold abortNode
  dsimp only
  split
  · exact nodes_removeCurrentFailure st _
  · rfl

theorem carries_stopRerun (st : RunState) (nid : Int) :
    Carries Untouched st.nodes (stopRerun st nid).nodes := by
  unfold stopRerun
  split
  · rename_i n hn
    refine carries_setNode .refl fun m hm => ?_
    have : m = n := by
      rw [show st.nodes.get n.id = some n from Table.key_of_get hn ▸ hn] at hm
      exact (Option.some.inj hm).symm
    rw [this]
    refine ⟨⟨rfl, rfl, rfl⟩, rfl, fun h => ?_⟩
    unfold Node.Scrubbed at h ⊢
    exact congrArg (fun m : Node => { m with rerunFrom := .null, rerunStage := .null }) h
  · exact Carries.of_eq .refl rfl

theorem nodes_dropAborted (st : RunState) (nid : Int) : (dropAborted st nid).nodes = st.nodes := by
  have hunpause (st : RunState) : (unpauseNode st nid).nodes = st.nodes := by
    unfold unpauseNode
    split <;> rfl
  have happrove (st : RunState) : (disapproveNode st nid).nodes = st.nodes := by
    unfold disapproveNode
    split <;> rfl
  exact (happrove _).trans (hunpause st)

theorem carries_nodeAbort (s : FoldState) (e : Event) :
    Carries Rotated s.st.nodes (onNodeAbort pred s e).st.nodes := by
  unfold onNodeAbort
  split
  · exact Carries.of_eq (fun n => Rotated.of_untouched (.refl n)) rfl
  · rename_i nid _
    split
    · exact Carries.of_eq (fun n => Rotated.of_untouched (.refl n)) rfl
    · have hstop := carries_stopRerun (abortNode pred s.st nid) nid
      rw [nodes_abortNode, ← nodes_dropAborted (stopRerun _ nid) nid] at hstop
      dsimp only
      split
      · exact fun id n hn => (hstop id n hn).imp fun m hm => ⟨hm.1, Rotated.of_untouched hm.2⟩
      · exact Carries.trans (R := Untouched) (S := Rotated) (T := Rotated) Untouched.rotated hstop
          (carries_reopenSearch
            { st := dropAborted (stopRerun (abortNode pred s.st nid) nid) nid, ctx := s.ctx })

theorem nodes_reopenRun (st : RunState) : (reopenRun (clearPause st)).nodes = st.nodes := rfl

theorem nodes_invalidateCertificates (c : FoldCore) :
    (invalidateCompletionCertificates c).st.nodes = c.st.nodes := rfl

theorem carries_resumeOrRunReopened (c : FoldCore) (e : Event) :
    Carries Rotated c.st.nodes (onResumeOrRunReopened c e).st.nodes := by
  unfold onResumeOrRunReopened
  dsimp only
  rw [nodes_reopenRun]
  split
  · rw [nodes_invalidateCertificates]
    exact carries_rotate c.st c.st.holdoutEpochAware []
  · split
    · rw [nodes_invalidateCertificates]
      exact carries_rotate c.st false []
    · exact Carries.of_eq (fun n => Rotated.of_untouched (.refl n)) rfl

/-! ## Resets -/

/-- The event is a reset row accepted for `n`. -/
structure ResetsNode (st : RunState) (e : Event) (n : Node) : Prop where
  kind : e.kind = some .nodeReset
  named : st.nodeForEvent e.data = some n
  accepts : acceptsReset n e.data = true

theorem nodes_closeLifecycle (st : RunState) (n : Node) :
    (closeLifecycle pred st n).nodes = st.nodes := by
  have hforget (st : RunState) : (forgetLifecycle (unpauseFor st n) n).nodes = st.nodes := by
    unfold unpauseFor
    split <;> rfl
  exact (hforget _).trans (nodes_removeCurrentFailure st n)

variable (pred) in
theorem nodes_nodeReset {s : FoldState} {e : Event} {n : Node}
    (hn : s.st.nodeForEvent e.data = some n) (hacc : acceptsReset n e.data = true) :
    Carries Rotated (s.st.nodes.put (reopenedNode s.st n e.data))
      (onNodeReset pred s e).st.nodes := by
  unfold onNodeReset
  dsimp only
  rw [hn]
  dsimp only
  rw [hacc]
  have hset : ((closeLifecycle pred s.st n).setNode (reopenedNode s.st n e.data)).nodes =
      s.st.nodes.put (reopenedNode s.st n e.data) := by
    unfold RunState.setNode
    dsimp only
    rw [nodes_closeLifecycle]
  rw [← hset]
  exact carries_rotateAfterReset s.st _ e.data n.id

variable (pred) in
theorem reset_node {s : FoldState} {e : Event} {n : Node}
    (hn : s.st.nodeForEvent e.data = some n) (hacc : acceptsReset n e.data = true) :
    ∃ n', (onNodeReset pred s e).st.nodes.get n.id = some n' ∧ n.attempt < n'.attempt ∧ n'.Scrubbed ∧
      n'.selfMetric = n.selfMetric ∧ n'.activation = n.activation ∧ n'.agentReport = none := by
  have hput : (s.st.nodes.put (reopenedNode s.st n e.data)).get n.id =
      some (reopenedNode s.st n e.data) := Table.get_put_self s.st.nodes (reopenedNode s.st n e.data)
  obtain ⟨n', hn', hrot⟩ := nodes_nodeReset pred hn hacc n.id _ hput
  exact ⟨n', hn', hrot.le, hrot.scrubbed rfl, hrot.traces.selfMetric, hrot.traces.activation,
    hrot.traces.agentReport⟩

end Events

end LoopLab

/-!
## Terminal rows that come too late

A terminal row does nothing to the state where its lifecycle was charged before and no pending node
is left for it to settle; and after any terminal row that is the case for the same row.
-/

namespace LoopLab
open Lib Board

section Congr
variable {st st' : RunState}

theorem nodeForEvent_congr (h : st'.nodes = st.nodes) (d : Obj) :
    st'.nodeForEvent d = st.nodeForEvent d := by
  unfold RunState.nodeForEvent
  rw [h]

theorem aborted_congr (h : st'.abortedNodes = st.abortedNodes) (id : Int) :
    st'.aborted id = st.aborted id := by
  unfold RunState.aborted
  rw [h]

theorem attemptMatches_congr {n n' : Node} (h : n'.attempt = n.attempt) (d : Obj) :
    attemptMatches n' d = attemptMatches n d := by
  unfold attemptMatches
  rw [h]

theorem nodeForEvent_setNode {d : Obj} {n m : Node} (hn : st.nodeForEvent d = some n)
    (hid : m.id = n.id) : (st.setNode m).nodeForEvent d = some m := by
  have hnid := (RunState.id_of_nodeForEvent hn).1
  unfold RunState.nodeForEvent RunState.setNode
  rw [hnid, ← hid]
  exact Table.get_put_self _ _

end Congr

def WasCharged (c : FoldCore) (n : Node) (d : Obj) : Prop :=
  ∀ g, terminalGeneration d = some g → g ≤ n.attempt →
    (n.id, g) ∈ c.ctx.chargedTerminalGenerations

def chargesOnly (st : RunState) (n : Node) (d : Obj) : Bool :=
  st.aborted n.id || !attemptMatches n d

/-- Why a failure row may only charge: an aborted node still fails as aborted. -/
def failureChargesOnly (st : RunState) (n : Node) (d : Obj) : Bool :=
  (st.aborted n.id && !(d.get "reason").eqStr "aborted") || !attemptMatches n d

structure Closed (only : RunState → Node → Obj → Bool) (c : FoldCore) (d : Obj) : Prop where
  charged : ∀ n, c.st.nodeForEvent d = some n → only c.st n d = true → WasCharged c n d
  settled : ∀ n, c.st.nodeForEvent d = some n → only c.st n d = false → n.status ≠ .pending

theorem wasCharged_chargeTerminal (c : FoldCore) (n : Node) (d : Obj) :
    WasCharged (chargeTerminalCost c n d) n d :=
  fun _ hg hle => charged_chargeTerminal c hg hle

theorem closed_chargeTerminal {only : RunState → Node → Obj → Bool} {c : FoldCore} {d : Obj}
    {n : Node} (hcongr : ∀ {st st' : RunState}, st'.abortedNodes = st.abortedNodes →
      only st' n d = only st n d)
    (hn : c.st.nodeForEvent d = some n) (honly : only c.st n d = true) :
    Closed only (chargeTerminalCost c n d) d := by
  have hsame (m : Node) (hm : (chargeTerminalCost c n d).st.nodeForEvent d = some m) : m = n := by
    rw [nodeForEvent_congr (nodes_chargeTerminal c n d), hn] at hm
    exact (Option.some.inj hm).symm
  refine ⟨fun m hm _ => hsame m hm ▸ wasCharged_chargeTerminal c n d, fun m hm hno => ?_⟩
  rw [hsame m hm, hcongr (aborted_chargeTerminal c n d), honly] at hno
  cases hno

theorem closed_of_settled {only : RunState → Node → Obj → Bool} {c : FoldCore} {d : Obj} {n : Node}
    (hn : c.st.nodeForEvent d = some n) (honly : only c.st n d = false) (hst : n.status ≠ .pending) :
    Closed only c d where
  charged m hm h := by
    rw [hn] at hm
    cases hm
    rw [honly] at h
    cases h
  settled m hm _ := by
    rw [hn] at hm
    cases hm
    exact hst

theorem closed_of_none {only : RunState → Node → Obj → Bool} {c : FoldCore} {d : Obj}
    (hn : c.st.nodeForEvent d = none) : Closed only c d where
  charged m hm := by rw [hn] at hm; cases hm
  settled m hm := by rw [hn] at hm; cases hm

/-! ## Evaluation rows -/

section Evaluated
variable {env : Env} {s : FoldState} {e : Event}

theorem onNodeEvaluated_closed (h : Closed chargesOnly s.toFoldCore e.data) :
    (onNodeEvaluated env s e).toFoldCore = s.toFoldCore := by
  unfold onNodeEvaluated
  split
  · rfl
  · rename_i n hn
    split
    · rename_i honly
      exact chargeTerminal_eq_self s.toFoldCore (h.charged n hn honly)
    · rename_i honly
      rw [if_pos (h.settled n hn (Bool.eq_false_iff.mpr honly))]

theorem closed_onNodeEvaluated (env : Env) (s : FoldState) (e : Event) :
    Closed chargesOnly (onNodeEvaluated env s e).toFoldCore e.data := by
  unfold onNodeEvaluated
  split
  · rename_i hn
    exact closed_of_none hn
  · rename_i n hn
    split
    · rename_i honly
      refine closed_chargeTerminal (fun hab => ?_) hn honly
      unfold chargesOnly
      rw [aborted_congr hab]
    · rename_i honly
      replace honly : chargesOnly s.st n e.data = false := Bool.eq_false_iff.mpr honly
      split
      · rename_i hst
        exact closed_of_settled hn honly hst
      · obtain ⟨hid, hatt, hdone, -, -⟩ := evaluatedNode_life env s.st e n
        have hnode := nodeForEvent_setNode hn hid
        refine closed_of_settled (n := evaluatedNode env s.st e n) ?_ ?_ (by rw [hdone]; exact nofun)
        · exact (nodeForEvent_congr (nodes_chargeTerminal _ _ _) e.data).trans hnode
        · unfold chargesOnly at honly ⊢
          rw [aborted_congr (aborted_chargeTerminal _ _ _), attemptMatches_congr hatt, hid]
          exact honly

end Evaluated

/-! ## Failure rows -/

section Failed
variable {env : Env} {c : FoldCore} {e : Event}

theorem settleFailed_closed (h : Closed failureChargesOnly c e.data) : settleFailed env c e = c := by
  unfold settleFailed
  split
  · rfl
  · rename_i n hn
    split
    · rename_i honly
      exact chargeTerminal_eq_self c (h.charged n hn honly)
    · rename_i honly
      rw [if_pos (h.settled n hn (Bool.eq_false_iff.mpr honly))]

theorem core_onNodeFailed (s : FoldState) :
    (onNodeFailed env s e).toFoldCore = settleFailed env s.toFoldCore e := by
  unfold onNodeFailed
  split <;> rfl

theorem nodes_addCurrentFailure (st : RunState) (n : Node) (e : Event) :
    (addCurrentFailure st n e).nodes = st.nodes ∧
      (addCurrentFailure st n e).abortedNodes = st.abortedNodes := by
  unfold addCurrentFailure
  split <;> exact ⟨rfl, rfl⟩

theorem closed_settleFailed (env : Env) (c : FoldCore) (e : Event) :
    Closed failureChargesOnly (settleFailed env c e) e.data := by
  unfold settleFailed
  split
  · rename_i hn
    exact closed_of_none hn
  · rename_i n hn
    split
    · rename_i honly
      refine closed_chargeTerminal (fun hab => ?_) hn honly
      unfold failureChargesOnly
      rw [aborted_congr hab]
    · rename_i honly
      replace honly : failureChargesOnly c.st n e.data = false := Bool.eq_false_iff.mpr honly
      split
      · rename_i hst
        exact closed_of_settled hn honly hst
      · have hnode := nodeForEvent_setNode (m := failedNode env e n) hn rfl
        refine closed_of_settled (n := failedNode env e n) ?_ ?_ nofun
        · refine (nodeForEvent_congr (nodes_addCurrentFailure _ _ _).1 e.data).trans ?_
          exact (nodeForEvent_congr (nodes_chargeTerminal _ _ _) e.data).trans hnode
        · unfold failureChargesOnly at honly ⊢
          rw [aborted_congr (nodes_addCurrentFailure _ _ _).2,
            aborted_congr (aborted_chargeTerminal _ _ _)]
          exact honly

end Failed

end LoopLab
