import LoopLab.Fold.Epoch
import LoopLab.Lib.Sorted
import Mathlib.Tactic.Linarith
import Mathlib.Tactic.Ring

/-!
# The evaluator seconds the log still owes

Only a terminal row is charged to the run's evaluation budget.
-/

set_option autoImplicit false

namespace LoopLab.Engine.EvalSeconds
open Lib

/-- `SALVAGE_CAUSE_TRIAGE_ACTION` -/
def salvageCauseTriageAction : String := "salvage_cause_fix"

def durableRowBelongs (d : Obj) (nodeId : Int) (generation : Nat) : Bool :=
  coerceNodeId d == some nodeId && eventGenerationBinds d generation

/-- What a row adds to a sum of seconds: nothing unless it reads as a positive number. -/
def gain : Option Rat → Rat
  | some s => if 0 < s then s else 0
  | none => 0

/-- `float(d.get("eval_seconds") or 0.0)` -/
def secondsField (d : Obj) : Option Rat := ((d.get "eval_seconds").orElse (.float 0)).toFloat

/-- The seconds of the rows of one type, as `_durable_repair_seconds` and
`_durable_dep_round_seconds` sum them. -/
def durableSeconds (type : String) (events : List Event) (nodeId : Int) (generation : Nat) : Rat :=
  (events.map fun e =>
    if e.type == type && durableRowBelongs e.data nodeId generation then gain (secondsField e.data)
    else 0).sum

def durableRepairSeconds := durableSeconds "node_repaired"

def durableDepRoundSeconds := durableSeconds "deps_installed"

def positiveSeconds (d : Obj) : Rat :=
  if (d.get "eval_seconds").isBool then 0 else gain (secondsField d)

def durableWithheldSeconds (events : List Event) (nodeId : Int) (generation : Nat) : Rat :=
  (events.map fun e =>
    if e.type == "eval_attempt_withheld" && durableRowBelongs e.data nodeId generation then
      positiveSeconds e.data
    else 0).sum

def isTerminal (type : String) : Bool := type == "node_evaluated" || type == "node_failed"

def terminalBinds (e : Event) (nodeId : Int) (generation : Nat) : Bool :=
  coerceNodeId e.data == some nodeId && eventGenerationBinds e.data generation true

def carriesSettle (e : Event) (nodeId : Int) (generation : Nat) : Bool :=
  if isTerminal e.type then terminalBinds e nodeId generation
  else if e.type == "eval_attempt_withheld" && !(e.data.get "at").eqStr "decide_repair" then false
  else if e.type == "node_repaired" &&
      (e.data.get "triage_action").eqStr salvageCauseTriageAction then false
  else (e.type == "node_repaired" || e.type == "deps_installed" ||
      e.type == "eval_attempt_withheld") && durableRowBelongs e.data nodeId generation

/-- The step of the lifecycle whose seconds no row has carried yet: `open_kind` and
`open_seconds`. -/
inductive Window where
  | shut
  | settle (seconds : Rat)
  | canary (seconds : Rat)
  deriving DecidableEq, Repr

namespace Window

def seconds : Window → Rat
  | shut => 0
  | settle s => s
  | canary s => s

def isCanary : Window → Bool
  | canary _ => true
  | _ => false

end Window

def claimDisowns (d : Obj) : Bool :=
  (d.get "canary_ran").isFalse ||
    (!(d.get "canary_ran").isBool && (d.get "after_interrupted_attempt").isTrue)

/-- One row of `_durable_orphan_settle_seconds`. -/
def orphanStep (nodeId : Int) (generation : Nat) (acc : Rat × Window) (e : Event) : Rat × Window :=
  let belongs := durableRowBelongs e.data nodeId generation
  if e.type == "eval_invocation_claimed" then
    match acc.2 with
    | .canary s => if belongs && claimDisowns e.data then (acc.1 + s, .shut) else acc
    | _ => acc
  else if e.type == "eval_invocation_settled" then
    if !belongs then acc
    else match acc.2 with
      | .settle s => (acc.1 + s, .settle (positiveSeconds e.data))
      | _ => (acc.1, .settle (positiveSeconds e.data))
  else if e.type == "eval_canary_started" then
    if belongs && !(e.data.get "retry").truthy then (acc.1 + acc.2.seconds, .shut) else acc
  else if e.type == "eval_canary_finished" then
    if !belongs then acc
    else match acc.2 with
      | .canary s => (acc.1, .canary (s + positiveSeconds e.data))
      | _ => (acc.1, .canary (positiveSeconds e.data))
  else if carriesSettle e nodeId generation ||
      (acc.2.isCanary && e.type == "eval_attempt_withheld" &&
        (e.data.get "at").eqStr "after_canary" && belongs) then (acc.1, .shut)
  else acc

def durableOrphanSettleSeconds (events : List Event) (nodeId : Int) (generation : Nat) : Rat :=
  let (spent, window) := events.foldl (orphanStep nodeId generation) (0, .shut)
  spent + window.seconds

/-- The sum `_durable_prior_seconds` rounds. -/
def priorSeconds (events : List Event) (nodeId : Int) (generation : Nat) : Rat :=
  durableRepairSeconds events nodeId generation + durableDepRoundSeconds events nodeId generation +
    durableWithheldSeconds events nodeId generation +
    durableOrphanSettleSeconds events nodeId generation

/-- `round(q)`: ties go to the even neighbour. -/
def roundHalfEven (q : Rat) : Int :=
  let below := q.floor
  if q - below < 1 / 2 then below
  else if 1 / 2 < q - below then below + 1
  else if below % 2 = 0 then below
  else below + 1

/-- `round(q, 3)` -/
def round3 (q : Rat) : Rat := roundHalfEven (q * 1000) / 1000

def durablePriorSeconds (events : List Event) (nodeId : Int) (generation : Nat) : Rat :=
  round3 (priorSeconds events nodeId generation)

/-- The sum `charged_eval_seconds` rounds: what the log held when this process took the lifecycle,
its own attempts, and an attempt still on the clock. -/
def chargedSeconds (priorRepairSeconds totalEval extra : Rat) : Rat :=
  priorRepairSeconds + totalEval + extra

def spentLifecycle (e : Event) : Option (Int × Nat) :=
  if e.type ∈ ["node_repaired", "deps_installed", "eval_attempt_withheld",
      "eval_invocation_settled", "eval_canary_finished"] then
    match coerceNodeId e.data, coerceNodeId e.data "generation" with
    | some nodeId, some g => if 0 ≤ g then some (nodeId, g.toNat) else none
    | _, _ => none
  else none

def lifecycleLe (p q : Int × Nat) : Bool := decide (p.1 < q.1 ∨ p.1 = q.1 ∧ p.2 ≤ q.2)

def abandoned (state : RunState) (nodeId : Int) (generation : Nat) : Bool :=
  match state.nodes.get nodeId with
  | none => false
  | some node => decide (generation < node.attempt) || (generation == node.attempt && node.tombstoned)

def hasTerminal (events : List Event) (nodeId : Int) (generation : Nat) : Bool :=
  events.any fun e => isTerminal e.type && terminalBinds e nodeId generation

/-- One pass of the loop of `abandoned_lifecycle_charges`. -/
def chargeOf (events : List Event) (state : RunState) (lifecycle : Int × Nat) :
    Option (Int × Nat × Rat) :=
  let (nodeId, generation) := lifecycle
  if !abandoned state nodeId generation || hasTerminal events nodeId generation then none
  else
    let seconds := durablePriorSeconds events nodeId generation
    if 0 < seconds then some (nodeId, generation, seconds) else none

def abandonedLifecycleCharges (events : List Event) (state : RunState) : List (Int × Nat × Rat) :=
  ((events.filterMap spentLifecycle).dedup.mergeSort lifecycleLe).filterMap (chargeOf events state)

end LoopLab.Engine.EvalSeconds

/-!
## What the rows of one lifecycle say about its seconds

A lifecycle's log as the sequence of its own steps: a canary started or finished, an invocation claimed or settled,
a row that carries seconds, a terminal.
-/

namespace LoopLab.Engine.EvalSeconds
open Lib

/-- Where a pause withheld an attempt: `admit` and `before_launch` come before anything ran. -/
inductive Held where
  | early
  | afterCanary
  | decideRepair
  deriving DecidableEq, Repr

inductive Mark where
  | canaryStarted (retry : Bool)
  | canaryFinished (seconds : Rat)
  | claimed (disowns : Bool)
  | settled (seconds : Rat)
  | repaired (salvage : Bool) (seconds : Rat)
  | depsInstalled (seconds : Rat)
  | withheld (held : Held) (seconds : Rat)
  | terminal
  deriving DecidableEq, Repr

def heldAt (d : Obj) : Held :=
  if (d.get "at").eqStr "decide_repair" then .decideRepair
  else if (d.get "at").eqStr "after_canary" then .afterCanary
  else .early

def markOf (nodeId : Int) (generation : Nat) (e : Event) : Option Mark :=
  if isTerminal e.type then if terminalBinds e nodeId generation then some .terminal else none
  else if !durableRowBelongs e.data nodeId generation then none
  else if e.type == "eval_canary_started" then some (.canaryStarted (e.data.get "retry").truthy)
  else if e.type == "eval_canary_finished" then some (.canaryFinished (positiveSeconds e.data))
  else if e.type == "eval_invocation_claimed" then some (.claimed (claimDisowns e.data))
  else if e.type == "eval_invocation_settled" then some (.settled (positiveSeconds e.data))
  else if e.type == "node_repaired" then
    some (.repaired ((e.data.get "triage_action").eqStr salvageCauseTriageAction)
      (gain (secondsField e.data)))
  else if e.type == "deps_installed" then some (.depsInstalled (gain (secondsField e.data)))
  else if e.type == "eval_attempt_withheld" then
    some (.withheld (heldAt e.data) (positiveSeconds e.data))
  else none

namespace Mark

def carried : Mark → Rat
  | repaired _ s => s
  | depsInstalled s => s
  | withheld _ s => s
  | _ => 0

def scan (acc : Rat × Window) : Mark → Rat × Window
  | canaryStarted retry => if retry then acc else (acc.1 + acc.2.seconds, .shut)
  | canaryFinished s =>
    match acc.2 with
    | .canary t => (acc.1, .canary (t + s))
    | _ => (acc.1, .canary s)
  | claimed disowns =>
    match acc.2 with
    | .canary s => if disowns then (acc.1 + s, .shut) else acc
    | _ => acc
  | settled s =>
    match acc.2 with
    | .settle t => (acc.1 + t, .settle s)
    | _ => (acc.1, .settle s)
  | repaired salvage _ => if salvage then acc else (acc.1, .shut)
  | depsInstalled _ => (acc.1, .shut)
  | withheld .early _ => acc
  | withheld .afterCanary _ => if acc.2.isCanary then (acc.1, .shut) else acc
  | withheld .decideRepair _ => (acc.1, .shut)
  | terminal => (acc.1, .shut)

end Mark

/-- What a sequence of marks owes: the seconds its rows carry, the steps later rows passed over, and
the step still open. -/
def owed (marks : List Mark) : Rat :=
  let (spent, window) := marks.foldl Mark.scan (0, .shut)
  (marks.map Mark.carried).sum + (spent + window.seconds)

section Reading
variable (nodeId : Int) (generation : Nat)

theorem isTerminal_iff {type : String} :
    isTerminal type = true ↔ type = "node_evaluated" ∨ type = "node_failed" := by
  simp [isTerminal]

theorem carried_markOf (e : Event) :
    ((markOf nodeId generation e).map Mark.carried).getD 0 =
      (if e.type == "node_repaired" && durableRowBelongs e.data nodeId generation then
        gain (secondsField e.data) else 0) +
      (if e.type == "deps_installed" && durableRowBelongs e.data nodeId generation then
        gain (secondsField e.data) else 0) +
      (if e.type == "eval_attempt_withheld" && durableRowBelongs e.data nodeId generation then
        positiveSeconds e.data else 0) := by
  unfold markOf
  by_cases hterminal : isTerminal e.type
  · rcases isTerminal_iff.mp hterminal with h | h
    · simp only [h]
      cases terminalBinds e nodeId generation <;> simp [isTerminal, Mark.carried]
    · simp only [h]
      cases terminalBinds e nodeId generation <;> simp [isTerminal, Mark.carried]
  · cases hours : durableRowBelongs e.data nodeId generation with
    | false => simp [hterminal]
    | true =>
      by_cases hrepaired : e.type = "node_repaired"
      · simp [hrepaired, isTerminal, Mark.carried]
      by_cases hdeps : e.type = "deps_installed"
      · simp [hdeps, isTerminal, Mark.carried]
      by_cases hheld : e.type = "eval_attempt_withheld"
      · simp [hheld, isTerminal, Mark.carried]
      simp only [hterminal, hrepaired, hdeps, hheld, beq_iff_eq]
      split_ifs <;> simp_all [Mark.carried]

theorem scan_markOf (acc : Rat × Window) (e : Event) :
    orphanStep nodeId generation acc e = ((markOf nodeId generation e).map (Mark.scan acc)).getD acc := by
  unfold markOf
  by_cases hterminal : isTerminal e.type
  · rcases isTerminal_iff.mp hterminal with h | h
    · simp only [orphanStep, carriesSettle, h]
      cases terminalBinds e nodeId generation <;> simp [isTerminal, Mark.scan]
    · simp only [orphanStep, carriesSettle, h]
      cases terminalBinds e nodeId generation <;> simp [isTerminal, Mark.scan]
  · cases hours : durableRowBelongs e.data nodeId generation with
    | false =>
      have hnone : carriesSettle e nodeId generation = false := by
        simp [carriesSettle, hterminal, hours]
      simp only [orphanStep, hours, hnone, hterminal]
      cases acc.2 <;> simp
    | true =>
      by_cases hstarted : e.type = "eval_canary_started"
      · cases hretry : (e.data.get "retry").truthy <;>
          simp [orphanStep, hstarted, hours, hretry, isTerminal, Mark.scan]
      by_cases hfinished : e.type = "eval_canary_finished"
      · cases hopen : acc.2 <;> simp [orphanStep, hfinished, hours, hopen, isTerminal, Mark.scan]
      by_cases hclaimed : e.type = "eval_invocation_claimed"
      · cases hopen : acc.2 <;>
          simp [orphanStep, hclaimed, hours, hopen, isTerminal, Mark.scan]
      by_cases hsettled : e.type = "eval_invocation_settled"
      · cases hopen : acc.2 <;> simp [orphanStep, hsettled, hours, hopen, isTerminal, Mark.scan]
      by_cases hrepaired : e.type = "node_repaired"
      · cases hsalvage : (e.data.get "triage_action").eqStr salvageCauseTriageAction <;>
          simp [orphanStep, carriesSettle, hrepaired, hours, hsalvage, isTerminal, Mark.scan]
      by_cases hdeps : e.type = "deps_installed"
      · simp [orphanStep, carriesSettle, hdeps, hours, isTerminal, Mark.scan]
      by_cases hheld : e.type = "eval_attempt_withheld"
      · cases hdecide : (e.data.get "at").eqStr "decide_repair" <;>
          cases hcanary : (e.data.get "at").eqStr "after_canary" <;>
          simp [orphanStep, carriesSettle, heldAt, hheld, hours, hdecide, hcanary, isTerminal,
            Mark.scan]
      · have hnone : carriesSettle e nodeId generation = false := by
          simp [carriesSettle, hterminal, hrepaired, hdeps, hheld]
        simp [orphanStep, hterminal, hours, hnone, hstarted, hfinished, hclaimed, hsettled,
          hrepaired, hdeps, hheld]

theorem foldl_orphanStep (events : List Event) (acc : Rat × Window) :
    events.foldl (orphanStep nodeId generation) acc =
      (events.filterMap (markOf nodeId generation)).foldl Mark.scan acc := by
  induction events generalizing acc with
  | nil => rfl
  | cons e rest ih =>
    rw [List.foldl_cons, scan_markOf, ih]
    cases h : markOf nodeId generation e <;> simp [h]

theorem sum_carried (events : List Event) :
    durableRepairSeconds events nodeId generation +
      durableDepRoundSeconds events nodeId generation +
      durableWithheldSeconds events nodeId generation =
        ((events.filterMap (markOf nodeId generation)).map Mark.carried).sum := by
  unfold durableRepairSeconds durableDepRoundSeconds durableWithheldSeconds durableSeconds
  induction events with
  | nil => simp
  | cons e rest ih =>
    have hrow := carried_markOf nodeId generation e
    have hcons : (((e :: rest).filterMap (markOf nodeId generation)).map Mark.carried).sum =
        ((markOf nodeId generation e).map Mark.carried).getD 0 +
          ((rest.filterMap (markOf nodeId generation)).map Mark.carried).sum := by
      cases h : markOf nodeId generation e <;> simp [h]
    rw [hcons, hrow, ← ih]
    simp only [List.map_cons, List.sum_cons]
    ring

theorem priorSeconds_eq_owed (events : List Event) :
    priorSeconds events nodeId generation = owed (events.filterMap (markOf nodeId generation)) := by
  unfold priorSeconds owed durableOrphanSettleSeconds
  rw [sum_carried, foldl_orphanStep]

end Reading

/-! ## The rows the attempt loop writes -/

def lifecycleRow (type : String) (nodeId : Int) (generation : Nat) (fields : Obj) : Event where
  type := type
  data := ("node_id", .int nodeId) :: ("generation", .int generation) :: fields

/-- `_claim_eval_invocation` -/
def claimRow (nodeId : Int) (generation attempt : Nat) (invocationId : String)
    (canaryRan interrupted : Bool) : Event :=
  lifecycleRow "eval_invocation_claimed" nodeId generation
    ([("attempt", .int attempt), ("invocation_id", .str invocationId),
      ("canary_ran", .bool canaryRan)] ++
      if interrupted then [("after_interrupted_attempt", .bool true)] else [])

/-- `_settle_eval_invocation` -/
def settleRow (nodeId : Int) (generation attempt : Nat) (invocationId outcome : String)
    (seconds : Rat) (result : Option Json) : Event :=
  lifecycleRow "eval_invocation_settled" nodeId generation
    ([("attempt", .int attempt), ("invocation_id", .str invocationId), ("outcome", .str outcome),
      ("eval_seconds", .float seconds)] ++ result.toList.map fun r => ("result", r))

/-- The row `_eval_canary_round` opens with. -/
def canaryStartedRow (nodeId : Int) (generation attempt : Nat) (codeDigest : String)
    (timeout : Json) (retry : Nat) : Event :=
  lifecycleRow "eval_canary_started" nodeId generation
    ([("attempt", .int attempt), ("code_digest", .str codeDigest), ("timeout", timeout)] ++
      if retry ≠ 0 then [("retry", .int retry)] else [])

/-- The row `_eval_canary_round` closes with; `rest` is what the run left behind. -/
def canaryFinishedRow (nodeId : Int) (generation attempt : Nat) (codeDigest : String)
    (passed : Bool) (seconds : Rat) (logDir : String) (rest : Obj) : Event :=
  lifecycleRow "eval_canary_finished" nodeId generation
    ([("attempt", .int attempt), ("code_digest", .str codeDigest), ("passed", .bool passed),
      ("eval_seconds", .float seconds), ("log_dir", .str logDir)] ++ rest)

/-- `_record_eval_withheld` -/
def withheldRow (nodeId : Int) (generation attempt : Nat) (point reason : String)
    (seconds : Rat) : Event :=
  lifecycleRow "eval_attempt_withheld" nodeId generation
    [("attempt", .int attempt), ("at", .str point), ("reason", .str reason),
      ("eval_seconds", .float seconds)]

section Writing
variable (nodeId : Int) (generation attempt : Nat)

end Writing

end LoopLab.Engine.EvalSeconds
