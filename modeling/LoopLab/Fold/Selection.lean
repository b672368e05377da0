import LoopLab.Fold.Dispatch
import LoopLab.Fold.Fitness

/-!
# The selector

The best node of a run: the pick by mean, then the certificate of a confirmation pass, then the pick on the
holdout, then a human approval; a simplification that is no worse takes the place of the node it was cut from.
-/

set_option autoImplicit false

namespace LoopLab
open Lib

namespace RunState

def evaluatedNodes (st : RunState) : List Node :=
  st.nodes.rows.filter fun n => n.status = .evaluated && !n.tombstoned

/-- `SearchFitness(st.direction, ...)` as the selector builds it. -/
def fitness (st : RunState) : SearchFitness :=
  { direction := st.direction, verifierTiebreak := st.selectVerifierTiebreak
    ciTie := st.verifierCiTie }

end RunState

def promotionEligibleNodes (st : RunState) (flagged : List Int) : List Node :=
  st.evaluatedNodes.filter (countsTowardBest flagged st.abortedNodes)

def confirmedOr (nodes : List Node) : List Node :=
  let confirmed := nodes.filter (·.confirmedMean.isSome)
  if confirmed.isEmpty then nodes else confirmed

def holdoutPool (nodes : List Node) : List Node := nodes.filter (·.holdoutMetric.isSome)

def championTie (fit : SearchFitness) (key : Node → List Rat)
    (value : Node → Rat) (nodes : List Node) : List Node :=
  match fit.best key nodes with
  | some leader => nodes.filter fun n => value n = value leader
  | none => []

/-- The one tie that can decide the champion, whether or not its members are scored. -/
def verifierTieSet (fl : Floats) (st : RunState) (pool : List Node) : List Node :=
  let fit : SearchFitness := { direction := st.direction, verifierTiebreak := true, ciTie := true }
  if st.holdoutSelect && !(holdoutPool pool).isEmpty then
    championTie fit SearchFitness.plainHoldoutKey Node.holdout (holdoutPool pool)
  else if st.verifierCiTie then fit.ciTieSet fl (confirmedOr pool)
  else championTie fit SearchFitness.selectionKey Node.robust (confirmedOr pool)

/-- `verifier_tie_groups`: the tie is worth asking about where it is one and not scored yet. -/
def verifierTieGroups (fl : Floats) (env : Env) (st : RunState) : List (List Node) :=
  let tied := verifierTieSet fl st (promotionEligibleNodes st (flaggedNodeIds env st))
  if 2 ≤ tied.length && tied.any (·.verifierScore.isNone) then
    [tied.mergeSort fun a b => a.id ≤ b.id]
  else []

inductive Ruler where
  | robust | raw | holdout
  deriving DecidableEq, Repr

def Ruler.value : Ruler → Node → Json
  | .robust, n => n.robustMetric
  | .raw, n => n.metric
  | .holdout, n => .ofMetric n.holdoutMetric

def Ruler.single (r : Ruler) : Bool := r ≠ .robust

def stillCutOf (parent child : Node) : Bool :=
  match child.simplified, parent.code with
  | some receipt, .str code =>
    receipt.parentId = parent.id && code ≠ ""
      && (cutOf code receipt.block).any child.code.eqStr
      && (child.files.orElse (.obj [])).pyEq (parent.files.orElse (.obj []))
  | _, _ => false

section Simpler
variable (fl : Floats) (env : Env) (st : RunState)

/-- `_raw_verifier_score` -/
def heldRawScore (n : Node) : Option Rat :=
  (n.verifierRawScore.filter fun held => held.1 = rawEvidenceDigest env st n).map Prod.snd

def verifierPrefers (leader other : Node) (raw : Bool) : Bool :=
  let unit := fun q : Rat => decide (0 ≤ q ∧ q ≤ 1)
  let prefers := fun (a b : Option Rat) =>
    match a.filter unit, b.filter unit with
    | some p, some q => some (decide (q < p))
    | _, _ => none
  if !st.selectVerifierTiebreak then false else
  let current := if raw then none else prefers leader.verifierScore other.verifierScore
  ((current <|> prefers (heldRawScore env st leader) (heldRawScore env st other))).getD false

def comparedSpread (ruler : Ruler) (a b : Node) : Bool :=
  !ruler.single && a.confirmedMean.isSome && b.confirmedMean.isSome

def stdIf (spread : Bool) (n : Node) : Option Rat := if spread then n.confirmedStd else some 0

def seedsIf (spread : Bool) (n : Node) : Option Int := if spread then n.confirmedSeeds else some 0

def significantlyBeaten (ruler : Ruler) (candidate : Node) (pool : List Node) : Bool :=
  pool.any fun other =>
    match (ruler.value other).finiteMetric, (ruler.value candidate).finiteMetric with
    | some v, some w =>
      let spread := comparedSpread ruler other candidate
      other.id ≠ candidate.id
        && (ruler.single || other.confirmedMean.isNone == candidate.confirmedMean.isNone)
        && oneSeBetter fl v w (stdIf spread other) (seedsIf spread other) st.direction
          (stdIf spread candidate) (seedsIf spread candidate)
    | _, _ => false

/-- A cut may stand for the leader: in the pool, no worse, and refused by neither verifier nor pool. -/
def simplerValue (ruler : Ruler) (pool : List Node) (leader : Node) (anchor : Rat) (child : Node) :
    Option Rat := do
  let candidate ← pool.find? fun n => n.id = child.id
  let v ← (ruler.value candidate).finiteMetric
  let spread := comparedSpread ruler candidate leader
  if !ruler.single && candidate.confirmedMean.isNone != leader.confirmedMean.isNone then none
  else if !oneSeNonInferior fl v anchor (stdIf spread candidate) (seedsIf spread candidate)
      st.direction (stdIf spread leader) (seedsIf spread leader)
    || verifierPrefers env st leader candidate (ruler == .raw)
    || significantlyBeaten fl st ruler candidate pool then none
  else some v

/-- The walk down the receipts: the nodes to look below, those seen, and the choice so far. -/
structure Walk where
  frontier : List (Node × Nat)
  seen : List Int
  chosen : Node
  key : Option (List Rat)

def walkChild (ruler : Ruler) (pool : List Node) (leader : Node) (anchor : Rat) (parent : Node)
    (depth : Nat) (w : Walk) (child : Node) : Walk :=
  if w.seen.contains child.id || !stillCutOf parent child then w else
  let w := { w with
    seen := child.id :: w.seen
    frontier := (child, depth + 1) :: w.frontier }
  match simplerValue fl env st ruler pool leader anchor child with
  | none => w
  | some v =>
    let key : List Rat := [(depth : Rat) + 1, st.fitness.vsign * v, -child.id]
    if w.key.all (Py.tupleLt · key) then
      { w with
        chosen := (pool.find? fun n => n.id = child.id).getD w.chosen
        key := some key }
    else w

def cutChildren (parent : Node) : List Node :=
  st.nodes.rows.filter fun n => n.simplified.any fun receipt => receipt.parentId = parent.id

/-- Every round takes one node off the frontier, and no node joins it twice. -/
def walkCuts (ruler : Ruler) (pool : List Node) (leader : Node) (anchor : Rat) : Nat → Walk → Walk
  | 0, w => w
  | fuel + 1, w =>
    match w.frontier with
    | [] => w
    | (parent, depth) :: rest =>
      walkCuts ruler pool leader anchor fuel
        ((cutChildren st parent).foldl (walkChild fl env st ruler pool leader anchor parent depth)
          { w with frontier := rest })

def simplerTie (leader : Node) (pool : List Node) (ruler : Ruler) : Node :=
  if st.nodes.rows.all (·.simplified.isNone) then leader else
  match (ruler.value leader).finiteMetric with
  | none => leader
  | some anchor =>
    (walkCuts fl env st ruler pool leader anchor (st.nodes.rows.length + 1)
      { frontier := [(leader, 0)], seen := [leader.id], chosen := leader, key := none }).chosen

end Simpler

section Select
variable (fl : Floats) (env : Env) (st : RunState)

def meanPick (pool : List Node) : Option Node := st.fitness.bestCi fl (confirmedOr pool)

/-- A certificate overrides the pick unless it found a tie that the verifier may decide. -/
def certifiedPick (pool : List Node) (bestConfirmed : Option Int) (significant : Bool) :
    Option Node :=
  match bestConfirmed with
  | none => meanPick fl st pool
  | some id =>
    if (pool.any fun n => n.id = id) && (significant || !st.verifierCiTie) then st.nodes.get id
    else meanPick fl st pool

def holdoutPick (pool : List Node) (chosen : Option Node) : Option Node :=
  let hpool := holdoutPool pool
  if st.holdoutSelect && !hpool.isEmpty then
    (st.fitness.bestHoldout hpool).map (simplerTie fl env st · hpool .holdout)
  else chosen

def approvedPick (pool : List Node) (chosen : Option Node) : Option Node :=
  match st.approvedNodeId with
  | none => chosen
  | some id => if st.approved && pool.any fun n => n.id = id then st.nodes.get id else chosen

def selectBestNode (pool : List Node) (bestConfirmed : Option Int) (significant : Bool) :
    Option Node :=
  let certified := certifiedPick fl st pool bestConfirmed significant
  let simpler := certified.map (simplerTie fl env st · (confirmedOr pool) .robust)
  approvedPick st pool (holdoutPick fl env st pool simpler)

structure Folded where
  st : RunState
  bestNodeId : Option Int

/-- `_select_best`: an approval of a node that is no longer eligible lapses. -/
def selectBest (flagged : List Int) (bestConfirmed : Option Int) (significant : Bool) : Folded :=
  let pool := promotionEligibleNodes st flagged
  let lapsed := st.approved && st.approvedNodeId.any fun id => !pool.any fun n => n.id = id
  { st := if lapsed then { st with approved := false, approvedNodeId := none } else st
    bestNodeId := (selectBestNode fl env st pool bestConfirmed significant).map Node.id }

end Select

/-- `_finalize_fold`, as far as the best node goes: the trust gate, then the selection. -/
def finalizeFold (fl : Floats) (env : Env) (s : FoldState) : Folded :=
  selectBest fl env (applyTrustGate env s.st) (flaggedNodeIds env s.st) s.ctx.bestConfirmed
    s.ctx.bestConfirmedSignificant

end LoopLab
