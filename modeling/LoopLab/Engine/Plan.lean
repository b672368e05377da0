import Mathlib.Algebra.Order.Floor.Defs
import Mathlib.Data.Rat.Floor

/-!
# The plan of a run

A plan row cuts the budget of nodes into seeds, search and an endgame.
-/

set_option autoImplicit false

namespace LoopLab.Engine

/-- The arithmetic of floats a cut takes. A float stands as the number it is. -/
structure PlanFloats where
  product : Int → Rat → Rat
  round4 : Rat → Rat

/-- `round(x)`: a tie goes to the even number. -/
def pyRound (q : Rat) : Int :=
  let low := ⌊q⌋
  if q - low < 1 / 2 then low
  else if 1 / 2 < q - low then low + 1
  else if low % 2 = 0 then low else low + 1

def PlanFloats.exact : PlanFloats where
  product n q := n * q
  round4 q := pyRound (q * 10000) / 10000

/-- The float `0.9` -/
def maxReserveFrac : Rat := 8106479329266893 / 9007199254740992

/-- `PLAN_REASONS` -/
inductive PlanReason where
  | initial | budgetChanged | stagnation | reopened | injected
  deriving DecidableEq, Repr

/-- `REOPEN_CAUSES` -/
inductive ReopenCause where
  | championChanged | episodeSpent | stallRetracted
  deriving DecidableEq, Repr

def HARD_STALL_RUNGS : Int := 2

/-- The nodes of the phases; the endgame sweeps besides merging, or it only merges. -/
structure PlanPhases where
  seed : Int
  search : Int
  endgame : Int
  sweep : Bool
  deriving DecidableEq, Repr

/-- A plan row. `injected` is 0 and `stallChampions` is empty where the row has no such key. -/
structure PlanRow where
  atNode : Nat
  reason : PlanReason
  maxNodes : Int
  reserveFrac : Rat
  endgameStart : Int
  reserve : Int
  phases : PlanPhases
  injected : Int := 0
  endgameEnd : Option Int := none
  champion : Option Int := none
  stallChampions : List Int := []
  reopenCause : Option ReopenCause := none
  deriving DecidableEq, Repr

structure PlanCut where
  maxNodes : Int
  nSeeds : Int
  reserveFrac : Rat
  atNode : Nat
  endgameSweep : Bool := true
  injected : Int := 0

structure PlanAsk extends PlanCut where
  stallRung : Int := 0
  stallNodes : Int := 0
  champion : Option Int := none

/-- The count of nodes as `replan` takes it into its cuts. -/
def PlanAsk.cut (a : PlanAsk) : PlanCut := { a.toPlanCut with injected := max 0 a.injected }

section Build
variable (fl : PlanFloats)

def buildPlan (c : PlanCut) (reason : PlanReason) (endgameStart : Option Int) : Option PlanRow :=
  let nSeeds := max 0 c.nSeeds
  let injected := max 0 c.injected
  if c.maxNodes ≤ 0 ∨ c.reserveFrac ≤ 0 then none else
  let reserve := max 1 (pyRound (fl.product (max 0 (c.maxNodes - injected))
    (min c.reserveFrac maxReserveFrac)))
  let wanted := endgameStart.getD (c.maxNodes - reserve)
  let start := max (min nSeeds (c.maxNodes - 1)) (min wanted (c.maxNodes - 1))
  if start ≤ nSeeds ∧ c.maxNodes - nSeeds < 2 then none else
  some
    { atNode := c.atNode
      reason
      maxNodes := c.maxNodes
      reserveFrac := fl.round4 c.reserveFrac
      endgameStart := start
      reserve := c.maxNodes - start
      phases :=
        { seed := min nSeeds start
          search := max 0 (start - nSeeds)
          endgame := c.maxNodes - start
          sweep := c.endgameSweep }
      injected }

def recordedInjected (plan : PlanRow) : Int := if 0 < plan.injected then plan.injected else 0

def stallChampions (plan : PlanRow) : List Int := plan.stallChampions.eraseDups

def withSpent (row : Option PlanRow) (spent : List Int) : Option PlanRow :=
  row.map fun r => if spent = [] then r else { r with stallChampions := spent }

def ownFraction (plan : PlanRow) (c : PlanCut) : PlanCut :=
  if 0 < plan.reserveFrac then { c with reserveFrac := plan.reserveFrac } else c

def episodeRow (c : PlanCut) (start stop : Int) (champion : Option Int) (spent : List Int)
    (reason : PlanReason) : Option PlanRow :=
  (buildPlan fl c reason (some start)).map fun row =>
    let reserve := max 1 (min stop row.maxNodes - row.endgameStart)
    { row with
      reserve
      phases := { row.phases with endgame := reserve }
      endgameEnd := some stop
      champion
      stallChampions := spent }

/-- `_reopened` -/
def reopenedPlan (plan : PlanRow) (c : PlanCut) (spent : List Int) (cause : ReopenCause) :
    Option PlanRow :=
  withSpent ((buildPlan fl (ownFraction plan c) .reopened none).map
    fun row => { row with reopenCause := some cause }) spent

def injectedRecut (plan : PlanRow) (c : PlanCut) (spent : List Int) : Option PlanRow :=
  let recorded := recordedInjected plan
  if plan.reason = .stagnation then none
  else if c.injected = recorded then none
  -- the engine's own nodes had reached the reserve before the batch
  else if plan.endgameStart ≤ c.atNode - max 0 (c.injected - recorded) then none
  else withSpent ((buildPlan fl (ownFraction plan c) .injected none).filter
    fun row => row.endgameStart ≠ plan.endgameStart) spent

def injectedBatch (plan : PlanRow) (a : PlanAsk) : Int := a.cut.injected - recordedInjected plan

def BatchPending (plan : PlanRow) (a : PlanAsk) (stop : Int) : Prop :=
  0 < injectedBatch plan a ∧ a.atNode - injectedBatch plan a < stop

instance (plan : PlanRow) (a : PlanAsk) (stop : Int) : Decidable (BatchPending plan a stop) :=
  inferInstanceAs (Decidable (_ ∧ _))

def replanEpisode (plan : PlanRow) (a : PlanAsk) (stop : Int) : Option PlanRow :=
  let spent := stallChampions plan
  let own := ownFraction plan a.cut
  if a.champion ≠ plan.champion then reopenedPlan fl plan a.cut spent .championChanged
  else if BatchPending plan a stop then
    episodeRow fl own plan.endgameStart (stop + injectedBatch plan a) plan.champion spent .injected
  else if stop ≤ a.atNode then reopenedPlan fl plan a.cut spent .episodeSpent
  else if a.maxNodes ≠ plan.maxNodes then
    episodeRow fl own plan.endgameStart stop plan.champion spent .budgetChanged
  else none

def HardStall (plan : PlanRow) (a : PlanAsk) : Prop :=
  HARD_STALL_RUNGS ≤ a.stallRung ∧ a.nSeeds < a.atNode ∧ a.atNode < plan.endgameStart

instance (plan : PlanRow) (a : PlanAsk) : Decidable (HardStall plan a) :=
  inferInstanceAs (Decidable (_ ∧ _))

def replanPermanent (plan : PlanRow) (a : PlanAsk) : Option PlanRow :=
  if a.maxNodes ≠ plan.maxNodes then buildPlan fl a.cut .budgetChanged none
  else if HardStall plan a then buildPlan fl a.cut .stagnation (some a.atNode)
  else injectedRecut fl plan a.cut []

/-- What becomes of a row a stall has cut for good, once stalls are bounded. -/
def replanMigrated (plan : PlanRow) (a : PlanAsk) (stallNodes : Int) : Option PlanRow :=
  let spent := stallChampions plan
  match a.champion with
  | none => reopenedPlan fl plan a.cut spent .stallRetracted
  | some champion =>
    if a.stallRung < HARD_STALL_RUNGS then reopenedPlan fl plan a.cut spent .stallRetracted
    else if plan.endgameStart ≤ champion then reopenedPlan fl plan a.cut spent .championChanged
    else if champion ∈ spent then reopenedPlan fl plan a.cut spent .episodeSpent
    else if plan.endgameStart + stallNodes ≤ a.atNode then
      reopenedPlan fl plan a.cut (spent ++ [champion]) .episodeSpent
    else episodeRow fl (ownFraction plan a.cut) plan.endgameStart (plan.endgameStart + stallNodes)
      (some champion) (spent ++ [champion]) .stagnation

def replanBounded (plan : PlanRow) (a : PlanAsk) (stallNodes : Int) : Option PlanRow :=
  let spent := stallChampions plan
  if a.maxNodes ≠ plan.maxNodes then withSpent (buildPlan fl a.cut .budgetChanged none) spent
  else match a.champion.filter (fun champion => HardStall plan a ∧ champion ∉ spent) with
    | some champion => episodeRow fl (ownFraction plan a.cut) a.atNode (a.atNode + stallNodes)
        (some champion) (spent ++ [champion]) .stagnation
    | none => injectedRecut fl plan a.cut spent

def replan (plan : PlanRow) (a : PlanAsk) : Option PlanRow :=
  let stallNodes := max 0 a.stallNodes
  match plan.endgameEnd with
  | some stop => replanEpisode fl plan a stop
  | none =>
    if stallNodes ≤ 0 then replanPermanent fl plan a
    else if plan.reason = .stagnation then replanMigrated fl plan a stallNodes
    else replanBounded fl plan a stallNodes

def inEndgame (plan : PlanRow) (totalNodes : Int) : Bool :=
  plan.endgameStart ≤ totalNodes && plan.endgameEnd.all fun stop => decide (totalNodes < stop)

def ordinaryStart (plan : PlanRow) : Option Int :=
  (buildPlan fl
    { maxNodes := plan.maxNodes
      nSeeds := plan.phases.seed
      reserveFrac := plan.reserveFrac
      atNode := 0
      injected := recordedInjected plan } .initial none).map PlanRow.endgameStart

def finalReserveReached (plan : PlanRow) (totalNodes : Int) : Option Bool :=
  match plan.endgameEnd with
  | none => some (inEndgame plan totalNodes)
  | some _ => (ordinaryStart fl plan).map fun final =>
      inEndgame plan totalNodes && decide (final ≤ totalNodes)

end Build

end LoopLab.Engine
