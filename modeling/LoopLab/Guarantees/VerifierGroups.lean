import LoopLab.Fold.Selection

/-!
# The verifier is asked about the nodes that matter

The producer of tie groups and the selector compute the tied nodes apart from each other.
-/

set_option autoImplicit false

namespace LoopLab
open Lib

def rescore (score : Int → Option Rat) (n : Node) : Node := { n with verifierScore := score n.id }

theorem rescore_self {score : Int → Option Rat} {n : Node} (h : score n.id = n.verifierScore) :
    rescore score n = n := by
  unfold rescore
  rw [h]

theorem map_rescore_self {score : Int → Option Rat} {nodes : List Node}
    (h : ∀ n ∈ nodes, score n.id = n.verifierScore) : nodes.map (rescore score) = nodes := by
  induction nodes with
  | nil => rfl
  | cons n nodes ih =>
    rw [List.map_cons, rescore_self (h n List.mem_cons_self),
      ih fun m hm => h m (List.mem_cons_of_mem n hm)]

theorem rescore_id (score : Int → Option Rat) (n : Node) : (rescore score n).id = n.id := rfl

theorem filter_rescore {p : Node → Bool} {score : Int → Option Rat}
    (h : ∀ n, p (rescore score n) = p n) (nodes : List Node) :
    (nodes.map (rescore score)).filter p = (nodes.filter p).map (rescore score) := by
  have hp : p ∘ rescore score = p := funext h
  rw [List.filter_map, hp]

namespace RunState

/-- The state with other verifier scores. -/
def rescored (st : RunState) (score : Int → Option Rat) : RunState :=
  st.mapNodes (rescore score) (rescore_id score)

theorem rows_rescored (st : RunState) (score : Int → Option Rat) :
    (st.rescored score).nodes.rows = st.nodes.rows.map (rescore score) := rfl

theorem get_rescored (st : RunState) (score : Int → Option Rat) (id : Int) :
    (st.rescored score).nodes.get id = (st.nodes.get id).map (rescore score) :=
  Table.get_mapRows st.nodes (rescore score) (rescore_id score) id

end RunState

section Pools
variable (st : RunState) (score : Int → Option Rat)

theorem eligible_rescored (flagged : List Int) :
    promotionEligibleNodes (st.rescored score) flagged =
      (promotionEligibleNodes st flagged).map (rescore score) := by
  unfold promotionEligibleNodes RunState.evaluatedNodes
  rw [RunState.rows_rescored, filter_rescore fun _ => rfl]
  exact filter_rescore (fun _ => rfl) _

theorem hardFlagged_rescored (env : Env) :
    hardFlaggedIds env (st.rescored score) = hardFlaggedIds env st := by
  unfold hardFlaggedIds
  apply congrArg (List.filterMap · st.rewardHacks)
  funext rh
  cases rh.nodeId with
  | none => rfl
  | some id =>
    dsimp only [Option.bind_some]
    rw [RunState.get_rescored]
    cases st.nodes.get id <;> rfl

theorem flagged_rescored (env : Env) :
    flaggedNodeIds env (st.rescored score) = flaggedNodeIds env st := by
  have hgated : activationGatedIds (st.rescored score) = activationGatedIds st := by
    unfold activationGatedIds
    rw [RunState.rows_rescored, filter_rescore fun _ => rfl, List.map_map]
    rfl
  unfold flaggedNodeIds
  rw [hardFlagged_rescored, hgated]
  rfl

theorem confirmedOr_rescored (pool : List Node) :
    confirmedOr (pool.map (rescore score)) = (confirmedOr pool).map (rescore score) := by
  unfold confirmedOr
  dsimp only
  rw [filter_rescore fun _ => rfl, List.isEmpty_map]
  split <;> rfl

theorem holdoutPool_rescored (pool : List Node) :
    holdoutPool (pool.map (rescore score)) = (holdoutPool pool).map (rescore score) :=
  filter_rescore (fun _ => rfl) pool

end Pools

section Picks
variable (fl : Floats) (fit : SearchFitness) (score : Int → Option Rat)

theorem leader_rescored (nodes : List Node) :
    fit.best SearchFitness.selectionKey (nodes.map (rescore score)) =
      (fit.best SearchFitness.selectionKey nodes).map (rescore score) :=
  fit.best_map (f := rescore score) (fun _ => rfl) nodes

theorem holdoutLeader_rescored (nodes : List Node) :
    fit.best SearchFitness.plainHoldoutKey (nodes.map (rescore score)) =
      (fit.best SearchFitness.plainHoldoutKey nodes).map (rescore score) :=
  fit.best_map (f := rescore score) (fun _ => rfl) nodes

theorem ciTieSet_rescored (nodes : List Node) :
    fit.ciTieSet fl (nodes.map (rescore score)) =
      (fit.ciTieSet fl nodes).map (rescore score) := by
  unfold SearchFitness.ciTieSet
  rw [leader_rescored]
  cases fit.best SearchFitness.selectionKey nodes with
  | none => rfl
  | some leader => exact filter_rescore (fun _ => rfl) nodes

def meanTie (nodes : List Node) : List Node :=
  if fit.widens then fit.ciTieSet fl nodes
  else championTie fit SearchFitness.selectionKey Node.robust nodes

def holdoutTie (nodes : List Node) : List Node :=
  championTie fit SearchFitness.plainHoldoutKey Node.holdout nodes

theorem meanTie_rescored (nodes : List Node) :
    meanTie fl fit (nodes.map (rescore score)) = (meanTie fl fit nodes).map (rescore score) := by
  unfold meanTie
  split
  · exact ciTieSet_rescored fl fit score nodes
  · unfold championTie
    rw [leader_rescored]
    cases fit.best SearchFitness.selectionKey nodes with
    | none => rfl
    | some leader => exact filter_rescore (fun _ => rfl) nodes

theorem holdoutTie_rescored (nodes : List Node) :
    holdoutTie fit (nodes.map (rescore score)) = (holdoutTie fit nodes).map (rescore score) := by
  unfold holdoutTie championTie
  rw [holdoutLeader_rescored]
  cases fit.best SearchFitness.plainHoldoutKey nodes with
  | none => rfl
  | some leader => exact filter_rescore (fun _ => rfl) nodes

theorem bestCi_unscored {nodes : List Node} {n : Node} (hn : n ∈ meanTie fl fit nodes)
    (h : n.verifierScore = none) :
    fit.bestCi fl nodes = fit.best SearchFitness.selectionKey nodes := by
  unfold meanTie championTie at hn
  unfold SearchFitness.bestCi
  cases hleader : fit.best SearchFitness.selectionKey nodes with
  | none => rfl
  | some leader =>
    rw [hleader] at hn
    dsimp only [Option.bind_eq_bind, Option.bind_some]
    split
    · rename_i hwide
      rw [if_pos hwide] at hn
      exact fit.breakTie_unscored hn h
    · rename_i hexact
      rw [if_neg hexact] at hn
      exact fit.breakTie_unscored hn h

theorem bestHoldout_unscored {nodes : List Node} {n : Node} (hn : n ∈ holdoutTie fit nodes)
    (h : n.verifierScore = none) :
    fit.bestHoldout nodes = fit.best SearchFitness.plainHoldoutKey nodes := by
  unfold holdoutTie championTie at hn
  unfold SearchFitness.bestHoldout
  cases hleader : fit.best SearchFitness.plainHoldoutKey nodes with
  | none => rfl
  | some leader =>
    rw [hleader] at hn
    exact fit.breakTie_unscored hn h

theorem bestCi_rescored {nodes : List Node}
    (hkept : ∀ n ∈ meanTie fl fit nodes, score n.id = n.verifierScore) :
    fit.bestCi fl (nodes.map (rescore score)) = fit.bestCi fl nodes := by
  unfold meanTie at hkept
  unfold SearchFitness.bestCi
  rw [leader_rescored]
  cases hleader : fit.best SearchFitness.selectionKey nodes with
  | none => rfl
  | some leader =>
    dsimp only [Option.map_some, Option.bind_eq_bind, Option.bind_some]
    split
    · rename_i hwide
      rw [if_pos hwide] at hkept
      rw [ciTieSet_rescored, map_rescore_self hkept,
        rescore_self (hkept leader (fit.mem_ciTieSet fl hleader))]
    · rename_i hexact
      rw [if_neg hexact] at hkept
      unfold championTie at hkept
      rw [hleader] at hkept
      have hself : leader ∈ nodes.filter fun n => n.robust = leader.robust :=
        List.mem_filter.mpr ⟨fit.best_mem hleader, decide_eq_true rfl⟩
      have htied : (nodes.map (rescore score)).filter (fun n => n.robust = leader.robust) =
          nodes.filter fun n => n.robust = leader.robust := by
        rw [filter_rescore fun _ => rfl]
        exact map_rescore_self hkept
      rw [rescore_self (hkept leader hself)]
      exact congrArg (fit.breakTie fit.promotionKey leader) htied

theorem bestHoldout_rescored {nodes : List Node}
    (hkept : ∀ n ∈ holdoutTie fit nodes, score n.id = n.verifierScore) :
    fit.bestHoldout (nodes.map (rescore score)) = fit.bestHoldout nodes := by
  unfold SearchFitness.bestHoldout
  rw [holdoutLeader_rescored]
  cases hleader : fit.best SearchFitness.plainHoldoutKey nodes with
  | none => rfl
  | some leader =>
    unfold holdoutTie championTie at hkept
    rw [hleader] at hkept
    have hself : leader ∈ nodes.filter fun n => n.holdout = leader.holdout :=
      List.mem_filter.mpr ⟨fit.best_mem hleader, decide_eq_true rfl⟩
    have htied : (nodes.map (rescore score)).filter (fun n => n.holdout = leader.holdout) =
        nodes.filter fun n => n.holdout = leader.holdout := by
      rw [filter_rescore fun _ => rfl]
      exact map_rescore_self hkept
    dsimp only [Option.map_some, Option.bind_eq_bind, Option.bind_some]
    rw [rescore_self (hkept leader hself)]
    exact congrArg (fit.breakTie fit.holdoutKey leader) htied

end Picks

section Selection
variable {fl : Floats} {env : Env} {st : RunState}

/-- The nodes the verifier is asked about, before it matters whether they are scored. -/
def tieSetOf (fl : Floats) (env : Env) (st : RunState) : List Node :=
  verifierTieSet fl st (promotionEligibleNodes st (flaggedNodeIds env st))

/-- The champion of a state under a certificate. -/
def championOf (fl : Floats) (env : Env) (st : RunState) (bestConfirmed : Option Int)
    (significant : Bool) : Option Int :=
  (selectBestNode fl env st (promotionEligibleNodes st (flaggedNodeIds env st)) bestConfirmed
    significant).map Node.id

/-- The states agree but for the verifier scores of nodes outside the group. -/
def DifferOutside (group : List Node) (st st' : RunState) : Prop :=
  ∃ score, st' = st.rescored score ∧ ∀ n ∈ group, score n.id = n.verifierScore

theorem simplerTie_plain (hplain : ∀ n ∈ st.nodes.rows, n.simplified = none) (leader : Node)
    (pool : List Node) (ruler : Ruler) : simplerTie fl env st leader pool ruler = leader := by
  have hall : st.nodes.rows.all (·.simplified.isNone) = true := by
    apply List.all_eq_true.mpr
    intro n hn
    rw [hplain n hn]
    rfl
  unfold simplerTie
  rw [if_pos hall]

theorem plain_rescored {score : Int → Option Rat}
    (hplain : ∀ n ∈ st.nodes.rows, n.simplified = none) :
    ∀ n ∈ (st.rescored score).nodes.rows, n.simplified = none := by
  intro n hn
  rw [RunState.rows_rescored] at hn
  obtain ⟨m, hm, rfl⟩ := List.mem_map.mp hn
  exact hplain m hm

theorem selectBestNode_plain (hplain : ∀ n ∈ st.nodes.rows, n.simplified = none)
    (pool : List Node) (bestConfirmed : Option Int) (significant : Bool) :
    selectBestNode fl env st pool bestConfirmed significant =
      approvedPick st pool
        (if st.holdoutSelect && !(holdoutPool pool).isEmpty then
          st.fitness.bestHoldout (holdoutPool pool)
        else certifiedPick fl st pool bestConfirmed significant) := by
  have hid {pool : List Node} {ruler : Ruler} :
      (simplerTie fl env st · pool ruler) = id :=
    funext fun leader => simplerTie_plain hplain leader pool ruler
  unfold selectBestNode holdoutPick
  dsimp only
  rw [hid, hid, Option.map_id_fun, id]
  rfl

theorem member_rescored (score : Int → Option Rat) (pool : List Node) (id : Int) :
    (pool.map (rescore score)).any (fun n => n.id = id) = pool.any fun n => n.id = id := by
  rw [List.any_map]
  rfl

theorem approvedPick_rescored (score : Int → Option Rat) (pool : List Node)
    {chosen chosen' : Option Node} (h : chosen'.map Node.id = chosen.map Node.id) :
    (approvedPick (st.rescored score) (pool.map (rescore score)) chosen').map Node.id =
      (approvedPick st pool chosen).map Node.id := by
  unfold approvedPick
  have hid : (st.rescored score).approvedNodeId = st.approvedNodeId := rfl
  rw [hid]
  cases st.approvedNodeId with
  | none => exact h
  | some id =>
    dsimp only
    rw [member_rescored]
    have happ : (st.rescored score).approved = st.approved := rfl
    rw [happ]
    split
    · rw [RunState.get_rescored, Option.map_map]
      rfl
    · exact h

theorem certifiedPick_rescored (score : Int → Option Rat) (pool : List Node)
    (bestConfirmed : Option Int) (significant : Bool)
    (h : (meanPick fl (st.rescored score) (pool.map (rescore score))).map Node.id =
      (meanPick fl st pool).map Node.id) :
    (certifiedPick fl (st.rescored score) (pool.map (rescore score)) bestConfirmed
        significant).map Node.id =
      (certifiedPick fl st pool bestConfirmed significant).map Node.id := by
  unfold certifiedPick
  cases bestConfirmed with
  | none => exact h
  | some id =>
    dsimp only
    rw [member_rescored]
    have hci : (st.rescored score).verifierCiTie = st.verifierCiTie := rfl
    rw [hci]
    split
    · rw [RunState.get_rescored, Option.map_map]
      rfl
    · exact h

theorem champion_rescored (hplain : ∀ n ∈ st.nodes.rows, n.simplified = none)
    (score : Int → Option Rat) (bestConfirmed : Option Int) (significant : Bool)
    (hholdout : ∀ pool, pool = promotionEligibleNodes st (flaggedNodeIds env st) →
      (st.holdoutSelect && !(holdoutPool pool).isEmpty) = true →
      (st.fitness.bestHoldout ((holdoutPool pool).map (rescore score))).map Node.id =
        (st.fitness.bestHoldout (holdoutPool pool)).map Node.id)
    (hmean : ∀ pool, pool = promotionEligibleNodes st (flaggedNodeIds env st) →
      (st.holdoutSelect && !(holdoutPool pool).isEmpty) = false →
      (st.fitness.bestCi fl ((confirmedOr pool).map (rescore score))).map Node.id =
        (st.fitness.bestCi fl (confirmedOr pool)).map Node.id) :
    championOf fl env (st.rescored score) bestConfirmed significant =
      championOf fl env st bestConfirmed significant := by
  unfold championOf
  rw [flagged_rescored, eligible_rescored, selectBestNode_plain hplain,
    selectBestNode_plain (plain_rescored hplain)]
  apply approvedPick_rescored
  rw [holdoutPool_rescored, List.isEmpty_map]
  have hsel : (st.rescored score).holdoutSelect = st.holdoutSelect := rfl
  have hfit : (st.rescored score).fitness = st.fitness := rfl
  rw [hsel, hfit]
  split
  · rename_i h
    exact hholdout _ rfl h
  · rename_i h
    apply certifiedPick_rescored
    unfold meanPick
    rw [confirmedOr_rescored, hfit]
    exact hmean _ rfl (Bool.eq_false_iff.mpr h)

theorem mem_tieSetOf_holdout {n : Node}
    (h : (st.holdoutSelect && !(holdoutPool (promotionEligibleNodes st
      (flaggedNodeIds env st))).isEmpty) = true) :
    n ∈ tieSetOf fl env st ↔
      n ∈ holdoutTie st.fitness (holdoutPool (promotionEligibleNodes st (flaggedNodeIds env st))) := by
  unfold tieSetOf verifierTieSet
  dsimp only
  rw [if_pos h]
  rfl

theorem mem_tieSetOf_mean {n : Node} (htie : st.selectVerifierTiebreak = true)
    (h : (st.holdoutSelect && !(holdoutPool (promotionEligibleNodes st
      (flaggedNodeIds env st))).isEmpty) = false) :
    n ∈ tieSetOf fl env st ↔ n ∈ meanTie fl st.fitness
      (confirmedOr (promotionEligibleNodes st (flaggedNodeIds env st))) := by
  have hwide : st.fitness.widens = st.verifierCiTie := by
    unfold SearchFitness.widens RunState.fitness
    rw [htie, Bool.and_true]
  unfold tieSetOf verifierTieSet meanTie
  dsimp only
  rw [if_neg (Bool.eq_false_iff.mp h), hwide]
  split <;> rfl

theorem champion_of_agreement (hplain : ∀ n ∈ st.nodes.rows, n.simplified = none)
    (htie : st.selectVerifierTiebreak = true) {st' : RunState}
    (h : DifferOutside (tieSetOf fl env st) st st') (bestConfirmed : Option Int)
    (significant : Bool) :
    championOf fl env st' bestConfirmed significant =
      championOf fl env st bestConfirmed significant := by
  obtain ⟨score, rfl, hagree⟩ := h
  apply champion_rescored hplain
  · rintro pool rfl hstage
    rw [bestHoldout_rescored st.fitness score]
    intro n hn
    exact hagree n ((mem_tieSetOf_holdout hstage).mpr hn)
  · rintro pool rfl hstage
    rw [bestCi_rescored fl st.fitness score]
    intro n hn
    exact hagree n ((mem_tieSetOf_mean htie hstage).mpr hn)

theorem champion_of_unscored (hplain : ∀ n ∈ st.nodes.rows, n.simplified = none)
    (htie : st.selectVerifierTiebreak = true) {n : Node} (hn : n ∈ tieSetOf fl env st)
    (h : n.verifierScore = none) (bestConfirmed : Option Int) (significant : Bool) :
    championOf fl env (st.rescored fun _ => none) bestConfirmed significant =
      championOf fl env st bestConfirmed significant := by
  apply champion_rescored hplain
  · rintro pool rfl hstage
    have hmem := (mem_tieSetOf_holdout hstage).mp hn
    have hmem' := List.mem_map_of_mem (f := rescore fun _ => none) hmem
    rw [← holdoutTie_rescored] at hmem'
    rw [bestHoldout_unscored st.fitness hmem h, bestHoldout_unscored st.fitness hmem' rfl,
      holdoutLeader_rescored, Option.map_map]
    rfl
  · rintro pool rfl hstage
    have hmem := (mem_tieSetOf_mean htie hstage).mp hn
    have hmem' := List.mem_map_of_mem (f := rescore fun _ => none) hmem
    rw [← meanTie_rescored] at hmem'
    rw [bestCi_unscored fl st.fitness hmem h, bestCi_unscored fl st.fitness hmem' rfl,
      leader_rescored, Option.map_map]
    rfl

end Selection

/-- Without simplification receipts and with the verifier's tie-break on: scores outside the group
the verifier is asked about change nothing, and a group that is not scored whole is decided as if no
node of the run were scored. -/
theorem verifier_group_decides (fl : Floats) (env : Env) (st : RunState)
    (hplain : ∀ n ∈ st.nodes.rows, n.simplified = none)
    (htie : st.selectVerifierTiebreak = true) (bestConfirmed : Option Int) (significant : Bool) :
    (∀ st', DifferOutside (tieSetOf fl env st) st st' →
      championOf fl env st' bestConfirmed significant =
        championOf fl env st bestConfirmed significant) ∧
    ((∃ n ∈ tieSetOf fl env st, n.verifierScore = none) →
      championOf fl env (st.rescored fun _ => none) bestConfirmed significant =
        championOf fl env st bestConfirmed significant) := by
  constructor
  · intro st' h
    exact champion_of_agreement hplain htie h bestConfirmed significant
  · rintro ⟨n, hn, h⟩
    exact champion_of_unscored hplain htie hn h bestConfirmed significant

def scoredNode (id : Int) (metric : Rat) (score : Option Rat) : Node :=
  { id := id, status := .evaluated, metric := .float metric, verifierScore := score }

/-- Two nodes level at the lead, both scored, and a third behind them. -/
def tiedRun : RunState where
  selectVerifierTiebreak := true
  nodes := ((Table.empty.put (scoredNode 0 1 (some (3 / 10)))).put
    (scoredNode 1 1 (some (7 / 10)))).put (scoredNode 2 2 none)

/-- The scores of the tied run, with a perfect one for the node behind. -/
def overrated (id : Int) : Option Rat :=
  if id = 0 then some (3 / 10) else if id = 1 then some (7 / 10) else some 1

theorem verifier_group_decides_tiedRun :
    championOf Floats.exact Env.plain tiedRun none true = some 1 ∧
      championOf Floats.exact Env.plain (tiedRun.rescored overrated) none true = some 1 := by
  have hplain : ∀ n ∈ tiedRun.nodes.rows, n.simplified = none := by
    intro n hn
    have hrows : n = scoredNode 0 1 (some (3 / 10)) ∨ n = scoredNode 1 1 (some (7 / 10)) ∨
        n = scoredNode 2 2 none := by
      simpa [tiedRun, Table.rows_put, Table.putRow, scoredNode] using hn
    rcases hrows with rfl | rfl | rfl <;> rfl
  have hchampion : championOf Floats.exact Env.plain tiedRun none true = some 1 := by decide +kernel
  have hagree : (tieSetOf Floats.exact Env.plain tiedRun).all
      (fun n => overrated n.id = n.verifierScore) = true := by decide +kernel
  have hsame := (verifier_group_decides Floats.exact Env.plain tiedRun hplain rfl none true).1
    (tiedRun.rescored overrated)
    ⟨overrated, rfl, fun n hn => of_decide_eq_true (List.all_eq_true.mp hagree n hn)⟩
  exact ⟨hchampion, hsame.trans hchampion⟩

end LoopLab
