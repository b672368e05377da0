import LoopLab.Lib.Custody
import Mathlib.Algebra.Field.Rat

/-!
# The spend of a run as a budget that every caller reserves against

A call holds an estimate of itself before it is queued, the mean of what the run has committed so far.
-/

set_option autoImplicit false

namespace LoopLab.Llm
open Lib

inductive Figure where
  | absent
  | unreadable
  | unbounded
  | finite (value : Rat)
  deriving DecidableEq, Repr

namespace Figure

def cap : Figure → Option Rat
  | finite q => if q ≤ 0 then none else some q
  | _ => none

/-- `int` of a finite number -/
def truncate (q : Rat) : Int := q.num.tdiv q.den

/-- `_cap` of an integral limit, which a number below one leaves at zero -/
def capWhole (f : Figure) : Option Int := f.cap.map truncate

/-- `float(value or 0.0)` as a commit takes it; nothing when it raises. -/
def spend : Figure → Option Rat
  | absent | unbounded => some 0
  | unreadable => none
  | finite q => some (if q < 0 then 0 else q)

/-- `int(value or 0)`; nothing when it raises. -/
def whole : Figure → Option Int
  | absent => some 0
  | unreadable | unbounded => none
  | finite q => some (truncate q)

end Figure

structure Reservation where
  cost : Rat
  tokens : Int
  deriving DecidableEq, Repr

/-- What a refusal says: the committed and the reserved spend, this call's estimate and the limit. -/
inductive BudgetExceeded where
  | cost (committed reserved estimate : Rat) (knob : String) (limit : Rat)
  | tokens (committed reserved estimate limit : Int)
  deriving DecidableEq, Repr

structure Delta where
  cost : Figure := .absent
  totalTokens : Figure := .absent
  calls : Figure := .absent
  pricedCalls : Figure := .absent
  deriving DecidableEq, Repr

def defaultCostKnob : String := "llm_budget_usd"

/-- `run_usd_ceiling`: the tighter of the declared caps, and its knob. -/
def runUsdCeiling (costLimit budgetUsd : Figure) : Option Rat × String :=
  match budgetUsd.cap, costLimit.cap with
  | none, none => (none, "")
  | some b, none => (some b, defaultCostKnob)
  | none, some c => (some c, "llm_cost_limit")
  | some b, some c => if c < b then (some c, "llm_cost_limit") else (some b, defaultCostKnob)

structure RunBudget where
  costLimit : Option Rat := none
  costKnob : String := ""
  tokenLimit : Option Int := none
  committedCost : Rat := 0
  committedTokens : Int := 0
  committedCalls : Int := 0
  pricedCalls : Int := 0
  reservedCost : Rat := 0
  reservedTokens : Int := 0
  reservations : Int := 0
  refusals : Nat := 0
  seeded : Bool := false
  deriving DecidableEq, Repr

namespace RunBudget

def init (costLimit tokenLimit budgetUsd : Figure) : RunBudget where
  costLimit := (runUsdCeiling costLimit budgetUsd).1
  costKnob := (runUsdCeiling costLimit budgetUsd).2
  tokenLimit := tokenLimit.capWhole

variable (b : RunBudget)

def enabled : Bool := b.costLimit.isSome || b.tokenLimit.isSome

/-- `_estimate_locked`: the mean cost of a priced call and the mean tokens of a call. -/
def estimate : Reservation where
  cost := if b.pricedCalls > 0 then b.committedCost / b.pricedCalls else 0
  tokens := if b.committedCalls > 0 then b.committedTokens / b.committedCalls else 0

def costRefusal (est : Rat) : Option BudgetExceeded :=
  b.costLimit.bind fun limit =>
    if limit ≤ b.committedCost ∨ limit < b.committedCost + b.reservedCost + est then
      some (.cost b.committedCost b.reservedCost est b.costKnob limit)
    else none

def tokenRefusal (est : Int) : Option BudgetExceeded :=
  b.tokenLimit.bind fun limit =>
    if limit ≤ b.committedTokens ∨ limit < b.committedTokens + b.reservedTokens + est then
      some (.tokens b.committedTokens b.reservedTokens est limit)
    else none

def hold (est : Reservation) : RunBudget :=
  { b with
    reservedCost := b.reservedCost + est.cost
    reservedTokens := b.reservedTokens + est.tokens
    reservations := b.reservations + 1 }

/-- Holds one call's estimate, or refuses it; nothing to hold when no ceiling is set. -/
def reserve : Except BudgetExceeded (Option Reservation) × RunBudget :=
  if b.enabled then
    match (b.costRefusal b.estimate.cost).or (b.tokenRefusal b.estimate.tokens) with
    | some refusal => (.error refusal, { b with refusals := b.refusals + 1 })
    | none => (.ok (some b.estimate), b.hold b.estimate)
  else (.ok none, b)

def adoptCostCeiling (limit : Figure) (knob : String) : Bool × RunBudget :=
  match limit.cap with
  | none => (false, b)
  | some capped =>
    if b.costLimit.any (· ≤ capped) then (false, b)
    else (true, { b with
      costLimit := some capped
      costKnob := if knob = "" then defaultCostKnob else knob })

/-- `release` of a reservation that is not `None` -/
def release (r : Reservation) : RunBudget :=
  { b with
    reservedCost := max 0 (b.reservedCost - r.cost)
    reservedTokens := max 0 (b.reservedTokens - r.tokens)
    reservations := max 0 (b.reservations - 1) }

def commit (delta : Delta) : Option RunBudget := do
  let cost ← delta.cost.spend
  let tokens ← delta.totalTokens.whole
  let calls ← delta.calls.whole
  let priced ← delta.pricedCalls.whole
  return { b with
    committedCost := b.committedCost + cost
    committedTokens := b.committedTokens + max 0 tokens
    committedCalls := b.committedCalls + max 0 calls
    pricedCalls := b.pricedCalls + max 0 priced }

/-- The rows of `seed`, up to one that raises; whether none did. -/
def commitAll : RunBudget → List Delta → Bool × RunBudget
  | b, [] => (true, b)
  | b, delta :: deltas => ((b.commit delta).map (commitAll · deltas)).getD (false, b)

/-- Whether the rows were adopted, nothing when one of them raises; a later call adopts none. -/
def seed (deltas : List Delta) : Option Bool × RunBudget :=
  if b.seeded then (some false, b)
  else
    let (read, after) := commitAll { b with seeded := true } deltas
    (if read then some true else none, after)

end RunBudget

/-- The reservation a call holds, and whether the call was committed under it. -/
structure Holding where
  reservation : Reservation
  committed : Bool := false
  deriving DecidableEq, Repr

structure Booked where
  estimate : Rat
  actual : Rat
  deriving DecidableEq, Repr

universe u
variable {κ : Type u} [DecidableEq κ]

/-- The budget with the reservations its callers hold, by the names of their calls. -/
structure Desk (κ : Type u) [DecidableEq κ] where
  budget : RunBudget
  held : Dict κ Holding := Table.empty
  booked : List Booked := []

inductive Act (κ : Type u) where
  | reserve (call : κ)
  | release (call : κ)
  | commit (call : κ) (delta : Delta)
  | seed (deltas : List Delta)
  | adopt (limit : Figure) (knob : String)

/-- What a commit of a call books beside the estimate it holds; a second commit books all of it again. -/
def bookedFor (d : Desk κ) (call : κ) (before after : RunBudget) : Booked where
  estimate := (d.held.get call).elim 0 fun h => if h.committed then 0 else h.reservation.cost
  actual := after.committedCost - before.committedCost

def step (d : Desk κ) : Act κ → Option (Desk κ)
  | .reserve call =>
    if (d.held.get call).isSome then none
    else
      match d.budget.reserve with
      | (.ok (some r), after) => some { d with budget := after, held := d.held.set call ⟨r, false⟩ }
      | (_, after) => some { d with budget := after }
  | .release call =>
    (d.held.get call).map fun h =>
      { d with budget := d.budget.release h.reservation, held := Table.erase d.held call }
  | .commit call delta =>
    match d.budget.commit delta with
    | none => some d
    | some after =>
      some { budget := after
             held := (d.held.get call).elim d.held fun h => d.held.set call { h with committed := true }
             booked := d.booked ++ [bookedFor d call d.budget after] }
  | .seed deltas => some { d with budget := (d.budget.seed deltas).2 }
  | .adopt limit knob => some { d with budget := (d.budget.adoptCostCeiling limit knob).2 }

def run (d : Desk κ) (acts : List (Act κ)) : Option (Desk κ) := acts.foldlM step d

end LoopLab.Llm
