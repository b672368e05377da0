import LoopLab.Lib.Table
import Mathlib.Algebra.Order.Ring.Unbundled.Rat
import Mathlib.Algebra.BigOperators.Group.List.Basic
import Mathlib.Algebra.Field.Rat

/-!
# The seconds evaluation lanes reserve

Every lane of an evaluation commits the worst case it may charge while it runs.
-/

set_option autoImplicit false

namespace LoopLab.Engine.EvalLanes
open Lib

abbrev Lifecycle := Int × Option Nat

def evalTimeAdmissionBlocked (spent reserved estimate : Rat) (maxEs : Option Rat) : Bool :=
  match maxEs with
  | none => false
  | some m =>
    if m ≤ spent then true
    else if reserved ≤ 0 then false
    else decide (m < spent + reserved + estimate)

/-- What an admission reads of a node: its lifecycle and the timeout its Researcher governs. -/
structure NodeView where
  attempt : Nat
  governed : Option Rat
  deriving DecidableEq, Repr

/-- `_eval_seconds_estimate`, under the budget one evaluation of the run has. -/
def evalSecondsEstimate (budget : Option Rat) (node : Option NodeView) : Rat :=
  let seconds := budget.toList ++ (node.bind (·.governed)).toList
  seconds.max?.getD 0

structure Lane where
  key : Lifecycle
  seconds : Rat
  deriving DecidableEq, Repr

structure Desk where
  /-- `total_eval_seconds` of the log -/
  spent : Rat := 0
  /-- `_eval_time_reservations` -/
  reservations : Dict Lifecycle Rat := Table.empty
  /-- `_eval_inflight`: what the Card session started -/
  inflight : List Lifecycle := []
  lanes : List Lane := []
  asked : Bool := false

/-- `_reserved_eval_seconds` -/
def Desk.reserved (s : Desk) : Rat := (s.reservations.rows.map Prod.snd).sum

def evalTimeAdmissionRefused (s : Desk) (budget : Option Rat) (node : Option NodeView)
    (maxEs : Option Rat) : Bool :=
  evalTimeAdmissionBlocked s.spent s.reserved (evalSecondsEstimate budget node) maxEs

/-- `_reserve_eval_seconds` -/
def Desk.reserve (s : Desk) (key : Lifecycle) (seconds : Rat) : Desk :=
  { s with reservations := s.reservations.set key (max 0 seconds) }

/-- `_release_eval_seconds` -/
def Desk.release (s : Desk) (key : Lifecycle) : Desk :=
  { s with reservations := s.reservations.erase key }

/-- A lane starts; where it could not be spawned, nothing ran and it hands back at once. -/
def Desk.start (s : Desk) (key : Lifecycle) (seconds : Rat) (spawned : Bool) : Desk :=
  let reserved := s.reserve key seconds
  if spawned then { reserved with lanes := s.lanes ++ [⟨key, seconds⟩] } else reserved.release key

inductive Act where
  | charge (seconds : Rat)
  /-- `_card_phase_admit_evals`, for the node it chose -/
  | card (budget : Option Rat) (id : Int) (node : NodeView) (spawned : Bool)
  /-- the parallel branch of `_dispatch_evals`, from the question behind its slot -/
  | parallel (budget : Option Rat) (id : Int) (node : Option NodeView) (spawned : Bool)
  | serialAsk (budget : Option Rat)
  | serialGrant (budget : Option Rat) (id : Int) (node : NodeView)
  | serialSkip
  | serialMissing (budget : Option Rat) (id : Int)
  | ended (lane : Lane)

section Step
variable (maxEs : Option Rat)

/-- `_eval_admission_current` on the ceiling -/
def overCeiling (s : Desk) : Bool := maxEs.any fun m => decide (m ≤ s.spent)

def step (s : Desk) : Act → Option Desk
  | .charge seconds => some { s with spent := s.spent + seconds }
  | .card budget id node spawned =>
    if s.inflight.any (·.1 = id) then none
    else if evalTimeAdmissionRefused s budget (some node) maxEs then none
    else
      let key := (id, some node.attempt)
      let after := s.start key (evalSecondsEstimate budget (some node)) spawned
      some (if spawned then { after with inflight := s.inflight ++ [key] } else after)
  | .parallel budget id node spawned =>
    if evalTimeAdmissionRefused s budget none maxEs then none
    else if node.isSome && overCeiling maxEs s then none
    else some (s.start (id, node.map (·.attempt)) (evalSecondsEstimate budget node) spawned)
  | .serialAsk budget =>
    if s.asked || evalTimeAdmissionRefused s budget none maxEs then none
    else some { s with asked := true }
  | .serialGrant budget id node =>
    if !s.asked || overCeiling maxEs s then none
    else some { s.start (id, some node.attempt) (evalSecondsEstimate budget (some node)) true with
      asked := false }
  | .serialSkip => if s.asked then some { s with asked := false } else none
  | .serialMissing budget id =>
    if s.asked || evalTimeAdmissionRefused s budget none maxEs then none
    else some (s.start (id, none) (evalSecondsEstimate budget none) true)
  | .ended lane =>
    if lane ∈ s.lanes then
      some { s.release lane.key with
        lanes := s.lanes.erase lane
        inflight := s.inflight.filter (· ≠ lane.key) }
    else none

end Step

end LoopLab.Engine.EvalLanes
