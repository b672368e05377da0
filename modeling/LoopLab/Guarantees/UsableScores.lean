import LoopLab.Lifecycles.Kept
import LoopLab.Fold.Selection

/-!
# Folded scores are usable numbers

Every score of a folded node is a float or nothing, and the best node is an eligible one with a float
to rank by, as long as no accepted evaluation row brings a task metric of another kind while an
objective is set: that one field is stored as it came, and going back to the task's metric ranks by it.
-/

set_option autoImplicit false

namespace LoopLab
open Lib Board

/-! ## The selector picks from its pool -/

section Picks
variable {fl : Floats} {env : Env} {st : RunState} {pool : List Node}

theorem mem_of_find {p : Node → Bool} {n d : Node} (h : d = n ∨ d ∈ pool) :
    (pool.find? p).getD d = n ∨ (pool.find? p).getD d ∈ pool := by
  cases hf : pool.find? p with
  | none => exact h
  | some m => exact .inr (List.mem_of_find?_eq_some hf)

theorem chosen_walkChild {ruler : Ruler} {leader parent child : Node} {anchor : Rat} {depth : Nat}
    {w : Walk} (h : w.chosen = leader ∨ w.chosen ∈ pool) :
    (walkChild fl env st ruler pool leader anchor parent depth w child).chosen = leader ∨
      (walkChild fl env st ruler pool leader anchor parent depth w child).chosen ∈ pool := by
  unfold walkChild
  dsimp only
  split
  · exact h
  · split
    · exact h
    · split
      · exact mem_of_find h
      · exact h

theorem chosen_walkChildren {ruler : Ruler} {leader parent : Node} {anchor : Rat} {depth : Nat}
    (children : List Node) {w : Walk} (h : w.chosen = leader ∨ w.chosen ∈ pool) :
    (children.foldl (walkChild fl env st ruler pool leader anchor parent depth) w).chosen = leader ∨
      (children.foldl (walkChild fl env st ruler pool leader anchor parent depth) w).chosen ∈ pool := by
  induction children generalizing w with
  | nil => exact h
  | cons child children ih => exact ih (chosen_walkChild h)

theorem chosen_walkCuts {ruler : Ruler} {leader : Node} {anchor : Rat} (fuel : Nat) (w : Walk)
    (h : w.chosen = leader ∨ w.chosen ∈ pool) :
    (walkCuts fl env st ruler pool leader anchor fuel w).chosen = leader ∨
      (walkCuts fl env st ruler pool leader anchor fuel w).chosen ∈ pool := by
  induction fuel generalizing w with
  | zero => exact h
  | succ fuel ih =>
    unfold walkCuts
    split
    · exact h
    · apply ih
      apply chosen_walkChildren
      exact h

theorem simplerTie_mem {leader : Node} (h : leader ∈ pool) (sub : List Node)
    (hsub : ∀ n ∈ sub, n ∈ pool) (ruler : Ruler) : simplerTie fl env st leader sub ruler ∈ pool := by
  unfold simplerTie
  split
  · exact h
  · split
    · exact h
    · rename_i anchor _
      have hstart : leader = leader ∨ leader ∈ sub := .inl rfl
      generalize hw : walkCuts fl env st ruler sub leader anchor _ _ = w
      have hwalk : w.chosen = leader ∨ w.chosen ∈ sub := hw ▸ chosen_walkCuts _ _ hstart
      rcases hwalk with hw | hw
      · rw [hw]
        exact h
      · exact hsub _ hw

theorem confirmedOr_subset {n : Node} (h : n ∈ confirmedOr pool) : n ∈ pool := by
  unfold confirmedOr at h
  dsimp only at h
  split at h
  · exact h
  · exact (List.mem_filter.mp h).1

theorem breakTie_mem {fit : SearchFitness} {key : Node → List Rat}
    {leader n : Node} {tied : List Node} (hleader : leader ∈ pool) (htied : ∀ m ∈ tied, m ∈ pool)
    (h : fit.breakTie key leader tied = some n) : n ∈ pool := by
  unfold SearchFitness.breakTie at h
  split at h
  · cases h
    exact hleader
  · exact htied n (fit.best_mem h)

theorem ciTieSet_subset {fit : SearchFitness} {n : Node} (h : n ∈ fit.ciTieSet fl pool) :
    n ∈ pool := by
  unfold SearchFitness.ciTieSet at h
  split at h
  · exact (List.mem_filter.mp h).1
  · cases h

theorem bestCi_mem {fit : SearchFitness} {n : Node} (h : fit.bestCi fl pool = some n) :
    n ∈ pool := by
  unfold SearchFitness.bestCi at h
  obtain ⟨leader, hleader, h⟩ := Option.bind_eq_some_iff.mp h
  split at h
  · exact breakTie_mem (fit.best_mem hleader) (fun m hm => ciTieSet_subset hm) h
  · exact breakTie_mem (fit.best_mem hleader) (fun m hm => (List.mem_filter.mp hm).1) h

theorem bestHoldout_mem {fit : SearchFitness} {n : Node} (h : fit.bestHoldout pool = some n) :
    n ∈ pool := by
  unfold SearchFitness.bestHoldout at h
  obtain ⟨leader, hleader, h⟩ := Option.bind_eq_some_iff.mp h
  exact breakTie_mem (fit.best_mem hleader) (fun m hm => (List.mem_filter.mp hm).1) h

theorem get_member (hpool : ∀ n ∈ pool, n ∈ st.nodes.rows) {id : Int} {n : Node}
    (hany : pool.any (fun n => n.id = id) = true) (h : st.nodes.get id = some n) : n ∈ pool := by
  obtain ⟨m, hm, hid⟩ := List.any_eq_true.mp hany
  have hget := Table.get_of_mem (hpool m hm)
  rw [of_decide_eq_true hid, h] at hget
  cases hget
  exact hm

theorem certifiedPick_mem (hpool : ∀ n ∈ pool, n ∈ st.nodes.rows) {bestConfirmed : Option Int}
    {significant : Bool} {n : Node} (h : certifiedPick fl st pool bestConfirmed significant = some n) :
    n ∈ pool := by
  have hmean (hm : meanPick fl st pool = some n) : n ∈ pool := confirmedOr_subset (bestCi_mem hm)
  unfold certifiedPick at h
  split at h
  · exact hmean h
  · split at h
    · rename_i hguard
      exact get_member hpool (Bool.and_eq_true_iff.mp hguard).1 h
    · exact hmean h

theorem selectBestNode_mem (hpool : ∀ n ∈ pool, n ∈ st.nodes.rows) {bestConfirmed : Option Int}
    {significant : Bool} {n : Node}
    (h : selectBestNode fl env st pool bestConfirmed significant = some n) : n ∈ pool := by
  have hsimpler {n : Node}
      (h : (certifiedPick fl st pool bestConfirmed significant).map
        (simplerTie fl env st · (confirmedOr pool) .robust) = some n) : n ∈ pool := by
    obtain ⟨leader, hleader, rfl⟩ := Option.map_eq_some_iff.mp h
    exact simplerTie_mem (certifiedPick_mem hpool hleader) _ (fun m hm => confirmedOr_subset hm) _
  have hholdout {n : Node}
      (h : holdoutPick fl env st pool ((certifiedPick fl st pool bestConfirmed significant).map
        (simplerTie fl env st · (confirmedOr pool) .robust)) = some n) : n ∈ pool := by
    unfold holdoutPick at h
    dsimp only at h
    split at h
    · obtain ⟨leader, hleader, rfl⟩ := Option.map_eq_some_iff.mp h
      have hsub {m : Node} (hm : m ∈ holdoutPool pool) : m ∈ pool := (List.mem_filter.mp hm).1
      exact simplerTie_mem (hsub (bestHoldout_mem hleader)) _ (fun m hm => hsub hm) _
    · exact hsimpler h
  unfold selectBestNode approvedPick at h
  dsimp only at h
  split at h
  · exact hholdout h
  · split at h
    · rename_i hguard
      exact get_member hpool (Bool.and_eq_true_iff.mp hguard).2 h
    · exact hholdout h

end Picks

/-! ## The scores of a folded state -/

/-- The scores of a node, as the values a reader of the state sees. -/
def Node.scores (n : Node) : List Json :=
  [n.metric, n.taskMetric, .ofMetric n.selfMetric, .ofMetric n.confirmedMean,
   .ofMetric n.confirmedStd, .ofMetric n.holdoutMetric]

/-- Scores are floats or nothing, and the best node is an eligible one with a float to rank by. -/
structure Usable (f : Folded) : Prop where
  scores : ∀ n ∈ f.st.nodes.rows, ∀ v ∈ n.scores, v.isScore = true
  best : ∀ id, f.bestNodeId = some id → ∃ n q, f.st.nodes.get id = some n ∧
    n.status = .evaluated ∧ n.feasible = true ∧ n.tombstoned = false ∧ id ∉ f.st.abortedNodes ∧
    id ∉ f.st.breedExcluded ∧ n.robustMetric = .float q

/-- The folded state of a log, with its best node. -/
def foldBest (fl : Floats) (env : Env) (log : List Event) : Folded :=
  finalizeFold fl env (replay env log)

theorem scores_iff {n : Node} : (∀ v ∈ n.scores, v.isScore = true) ↔ n.Measured := by
  unfold Node.scores
  simp only [List.forall_mem_cons, isScore_ofMetric, List.not_mem_nil, false_implies,
    implies_true, and_true]
  exact ⟨fun h => ⟨h.1, h.2⟩, fun h => ⟨h.metric, h.taskMetric⟩⟩

theorem measured_gatedNode {env : Env} {st : RunState} {n : Node} :
    (gatedNode env st n).Measured ↔ n.Measured := by
  unfold gatedNode
  split
  · exact ⟨fun h => h.congr rfl rfl, fun h => h.congr rfl rfl⟩
  · exact Iff.rfl

theorem measured_trustGate {env : Env} {st : RunState} :
    AllMeasured (applyTrustGate env st) ↔ AllMeasured st := by
  have hblock : AllMeasured (blockFlagged env st) ↔ AllMeasured st := by
    unfold blockFlagged
    split
    · constructor
      · intro h n hn
        exact measured_gatedNode.mp (h _ (List.mem_map_of_mem hn))
      · intro h
        exact h.mapNodes fun n hn => measured_gatedNode.mpr hn
    · exact Iff.rfl
  exact ⟨fun h => hblock.mp (h.of_nodes rfl), fun h => (hblock.mpr h).of_nodes rfl⟩

theorem nodes_selectBest (fl : Floats) (env : Env) (st : RunState) (flagged : List Int)
    (bestConfirmed : Option Int) (significant : Bool) :
    (selectBest fl env st flagged bestConfirmed significant).st.nodes = st.nodes ∧
      (selectBest fl env st flagged bestConfirmed significant).st.abortedNodes = st.abortedNodes ∧
      (selectBest fl env st flagged bestConfirmed significant).st.breedExcluded =
        st.breedExcluded := by
  unfold selectBest
  dsimp only
  split <;> exact ⟨rfl, rfl, rfl⟩

theorem robust_float {n : Node} (h : n.Measured) (hu : n.robustMetric.finiteMetric.isSome = true) :
    ∃ q, n.robustMetric = .float q := by
  have hscore : n.robustMetric.isScore = true := by
    unfold Node.robustMetric
    split
    · rfl
    · exact h.metric
  cases hv : n.robustMetric with
  | float q => exact ⟨q, rfl⟩
  | null =>
    rw [hv] at hu
    cases hu
  | bool b =>
    rw [hv] at hu
    cases hu
  | int i =>
    rw [hv] at hscore
    cases hscore
  | str s =>
    rw [hv] at hu
    cases hu
  | arr xs =>
    rw [hv] at hu
    cases hu
  | obj fields =>
    rw [hv] at hu
    cases hu

theorem usable_of_measured (fl : Floats) (env : Env) {s : FoldState} (h : AllMeasured s.st) :
    Usable (finalizeFold fl env s) := by
  have hgate : AllMeasured (applyTrustGate env s.st) := measured_trustGate.mpr h
  obtain ⟨hnodes, haborted, hexcluded⟩ := nodes_selectBest fl env (applyTrustGate env s.st)
    (flaggedNodeIds env s.st) s.ctx.bestConfirmed s.ctx.bestConfirmedSignificant
  unfold finalizeFold
  constructor
  · rw [hnodes]
    intro n hn
    exact scores_iff.mpr (hgate n hn)
  · intro id hid
    obtain ⟨n, hn, rfl⟩ := Option.map_eq_some_iff.mp hid
    have hrows (m : Node) (hm : m ∈ promotionEligibleNodes (applyTrustGate env s.st)
        (flaggedNodeIds env s.st)) : m ∈ (applyTrustGate env s.st).nodes.rows :=
      (List.mem_filter.mp (List.mem_filter.mp hm).1).1
    have hmem := selectBestNode_mem hrows hn
    have hget := Table.get_of_mem (hrows n hmem)
    obtain ⟨heval, hcounts⟩ := List.mem_filter.mp hmem
    have hlive := (List.mem_filter.mp heval).2
    unfold countsTowardBest at hcounts
    simp only [Bool.and_eq_true, Bool.not_eq_true', List.contains_eq_mem,
      decide_eq_false_iff_not] at hcounts
    simp only [Bool.and_eq_true, Bool.not_eq_true', decide_eq_true_eq] at hlive
    obtain ⟨q, hq⟩ := robust_float (hgate.of_get hget) hcounts.2
    refine ⟨n, q, ?_, hlive.1, hcounts.1.1.1, hlive.2, ?_, ?_, hq⟩
    · rw [hnodes]
      exact hget
    · rw [haborted]
      exact hcounts.1.2
    · rw [hexcluded]
      exact hcounts.1.1.2

theorem measured_of_usable {fl : Floats} {env : Env} {s : FoldState}
    (h : Usable (finalizeFold fl env s)) : AllMeasured s.st := by
  apply measured_trustGate.mp
  intro n hn
  apply scores_iff.mp
  apply h.scores n
  have hnodes := (nodes_selectBest fl env (applyTrustGate env s.st) (flaggedNodeIds env s.st)
    s.ctx.bestConfirmed s.ctx.bestConfirmedSignificant).1
  unfold finalizeFold
  rw [hnodes]
  exact hn

/-! ## A whole run -/

/-- No step of the log settles a node with a task metric that is no score. -/
def SettlesScores (env : Env) (log : List Event) : Prop :=
  ∀ before e, before ++ [e] <+: log → e.kind = some .nodeEvaluated →
    SettlesUsably (replay env before).st e

theorem not_measured_of_settled {env : Env} {s : FoldState} {e : Event} {n : Node}
    (hkind : e.kind = some .nodeEvaluated) (hn : s.st.nodeForEvent e.data = some n)
    (honly : chargesOnly s.st n e.data = false) (hst : n.status = .pending)
    (hbad : storesScore s.st e.data = false) : ¬ AllMeasured (step env s e).st := by
  intro h
  have hstep : (step env s e).st.nodes = s.st.nodes.put (evaluatedNode env s.st e n) := by
    unfold step stepWith
    rw [hkind]
    have hguard : (s.st.aborted n.id || !attemptMatches n e.data) = false := honly
    simp only [handle, onNodeEvaluated, hn, hguard, hst, Bool.false_eq_true, if_false, ne_eq,
      not_true_eq_false]
    exact nodes_chargeTerminal _ _ _
  have hget : (step env s e).st.nodes.get (evaluatedNode env s.st e n).id =
      some (evaluatedNode env s.st e n) := by
    rw [hstep]
    exact Table.get_put_self _ _
  have hscore := (h.of_get hget).taskMetric
  rw [taskMetric_evaluatedNode hbad] at hscore
  cases hscore

/-- Along a log the folded scores are usable exactly when no accepted evaluation row brings, while an
objective is set, a task metric that is neither null nor a float. -/
theorem scores_usable_iff (fl : Floats) (env : Env) (log : List Event) :
    (∀ before, before <+: log → Usable (foldBest fl env before)) ↔ SettlesScores env log := by
  constructor
  · intro h before e hlog hkind n hn honly hst
    by_contra hbad
    have hafter := measured_of_usable (h (before ++ [e]) hlog)
    rw [replay_snoc] at hafter
    exact not_measured_of_settled hkind hn honly hst (Bool.eq_false_iff.mpr hbad) hafter
  · intro h before hlog
    apply usable_of_measured
    induction before using List.reverseRecOn with
    | nil =>
      intro n hn
      cases hn
    | append_singleton before e ih =>
      rw [replay_snoc]
      exact measured_stepWith (h before e hlog) (ih ((List.prefix_append _ _).trans hlog))

def retarget (seq : Int) (key : Json) : Event where
  seq := seq
  type := "metric_retarget"
  data := [("key", key)]

/-- A terminal written under an objective, with a text for the task's own metric. -/
def unmeasuredTerminal (seq : Int) : Event where
  seq := seq
  type := "node_evaluated"
  data := [("node_id", .int 0), ("metric", .float (1 / 2)), ("task_metric", .str "n/a")]

/-- An objective is set, a node settles under it, and the objective is taken back. -/
def undoneRetarget : List Event :=
  [draftCreated 0, retarget 1 (.str "recall"), unmeasuredTerminal 2, retarget 3 .null]

/-- The text becomes the metric the node ranks by. -/
theorem undoneRetarget_unusable :
    ((foldBest Floats.exact .plain undoneRetarget).st.nodes.rows.map fun n =>
      (n.metric.str?, n.taskMetric.str?)) = [(some "n/a", some "n/a")] ∧
    ¬ Usable (foldBest Floats.exact .plain undoneRetarget) := by
  have hrows : ((foldBest Floats.exact .plain undoneRetarget).st.nodes.rows.map fun n =>
      (n.metric.str?, n.taskMetric.str?)) = [(some "n/a", some "n/a")] := by decide +kernel
  refine ⟨hrows, ?_⟩
  intro h
  have hall : (foldBest Floats.exact .plain undoneRetarget).st.nodes.rows.all
      (fun n => n.taskMetric.isScore) = false := by decide +kernel
  obtain ⟨n, hn, hbad⟩ := List.all_eq_false.mp hall
  exact hbad (scores_iff.mp (h.scores n hn)).taskMetric

end LoopLab
