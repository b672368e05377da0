import LoopLab.Json
import LoopLab.Lib.Rotation

/-!
# Admission of provider requests

One monitor gives out the permits of all lanes.
-/

set_option autoImplicit false

namespace LoopLab.Llm
open Lib

inductive Lane where
  | build | deepResearch | noveltyDedup | enrichment | engine
  deriving DecidableEq, Repr

namespace Lane

def name : Lane → String
  | build => "build"
  | deepResearch => "deep_research"
  | noveltyDedup => "novelty_dedup"
  | enrichment => "enrichment"
  | engine => "engine"

end Lane

def LLM_LANES : List Lane := [.build, .deepResearch, .noveltyDedup, .enrichment, .engine]

def LLM_FALLBACK_LANE : Lane := .engine

/-- `normalize_llm_lane` on a text -/
def normalizeLlmLane (value : String) : Lane :=
  (LLM_LANES.find? (·.name = Py.lower (Py.strip value))).getD LLM_FALLBACK_LANE

/-- `_positive_limit`; nothing where it raises. -/
def positiveLimit : Json → Option (Option Nat)
  | .null => some none
  | .int i => if i < 1 then none else some (some i.toNat)
  | _ => none

/-- `normalize_llm_lane_limits`; nothing where it raises. -/
def normalizeLlmLaneLimits : Json → Option (Lane → Option Nat)
  | .null => some fun _ => none
  | .obj rows =>
    rows.foldlM (fun limits row => do
      let lane ← LLM_LANES.find? (·.name = row.1)
      let limit ← positiveLimit row.2
      pure (Function.update limits lane limit)) fun _ => none
  | _ => none

structure Ticket where
  seq : Nat
  lane : Lane
  deriving DecidableEq, Repr

structure Broker where
  total : Option Nat
  laneLimits : Lane → Option Nat
  queues : Lane → List Ticket := fun _ => []
  borrowed : Int := 0
  borrowedByLane : Lane → Int := fun _ => 0
  nextSeq : Nat := 0
  lastLaneIndex : Nat := LLM_LANES.length - 1

def Broker.new (total laneLimits : Json) : Option Broker := do
  let total ← positiveLimit total
  let laneLimits ← normalizeLlmLaneLimits laneLimits
  pure { total, laneLimits }

def laneAt (i : Nat) : Lane := LLM_LANES.getD i LLM_FALLBACK_LANE

def laneIndex (lane : Lane) : Nat := LLM_LANES.idxOf lane

namespace Broker
variable (b : Broker)

def atTotal : Bool := b.total.any fun (total : Nat) => (total : Int) ≤ b.borrowed

/-- `_has_capacity_locked` -/
def hasCapacity (lane : Lane) : Bool :=
  !b.atTotal && (b.laneLimits lane).all fun (limit : Nat) => b.borrowedByLane lane < (limit : Int)

def waitsWithCapacity (lane : Lane) : Bool := !(b.queues lane).isEmpty && b.hasCapacity lane

/-- `_next_eligible_lane_locked` -/
def nextEligibleLane : Option Lane :=
  if b.atTotal then none
  else (Rotation.pick LLM_LANES.length b.lastLaneIndex fun i => b.waitsWithCapacity (laneAt i)).map laneAt

def enqueue (lane : Lane) : Broker × Ticket :=
  let ticket : Ticket := ⟨b.nextSeq, lane⟩
  ({ b with
      nextSeq := b.nextSeq + 1
      queues := Function.update b.queues lane (b.queues lane ++ [ticket]) }, ticket)

def ready (t : Ticket) : Prop := b.nextEligibleLane = some t.lane ∧ (b.queues t.lane).head? = some t

instance (t : Ticket) : Decidable (b.ready t) := inferInstanceAs (Decidable (_ ∧ _))

def admitHead (lane : Lane) : Broker :=
  { b with
    queues := Function.update b.queues lane (b.queues lane).tail
    borrowed := b.borrowed + 1
    borrowedByLane := Function.update b.borrowedByLane lane (b.borrowedByLane lane + 1)
    lastLaneIndex := laneIndex lane }

def removeTicket (t : Ticket) : Broker :=
  { b with queues := Function.update b.queues t.lane ((b.queues t.lane).erase t) }

def giveBack (lane : Lane) : Broker :=
  { b with
    borrowed := b.borrowed - 1
    borrowedByLane := Function.update b.borrowedByLane lane (b.borrowedByLane lane - 1) }

/-- `reconfigure`; nothing where a limit is refused. Without lane limits the old ones stay. -/
def reconfigure (total laneLimits : Json) : Option Broker := do
  let total ← positiveLimit total
  if laneLimits.isNull then pure { b with total }
  else do
    let laneLimits ← normalizeLlmLaneLimits laneLimits
    pure { b with total, laneLimits }

end Broker

/-- The broker with its threads: those waiting, the permits that are out, and every ticket admitted so far,
in order. -/
structure Requests where
  broker : Broker
  waiters : Waiters Ticket := {}
  live : List Ticket := []
  granted : List Ticket := []

inductive Action where
  | enter (lane : String)
  | wake (t : Ticket)
  | cancel (t : Ticket)
  | release (t : Ticket)
  | reconfigure (total laneLimits : Json)

namespace Requests
variable (s : Requests)

/-- One pass of the loop in `_borrow_permit`: the ticket is admitted and all are notified, or it sleeps. -/
def attempt (t : Ticket) : Requests :=
  if s.broker.ready t then
    { broker := s.broker.admitHead t.lane
      waiters := s.waiters.notifyAll
      live := t :: s.live
      granted := s.granted ++ [t] }
  else { s with waiters := s.waiters.sleep t }

def step : Action → Option Requests
  | .enter lane =>
    let (broker, ticket) := s.broker.enqueue (normalizeLlmLane lane)
    some ({ s with broker }.attempt ticket)
  | .wake t => if t ∈ s.waiters.woken then some ({ s with waiters := s.waiters.leave t }.attempt t) else none
  | .cancel t =>
    if t ∈ s.waiters.all then
      some { s with
        broker := s.broker.removeTicket t
        waiters := (s.waiters.leave t).notifyAll }
    else none
  | .release t =>
    if t ∈ s.live then
      some { s with
        broker := s.broker.giveBack t.lane
        live := s.live.erase t
        waiters := s.waiters.notifyAll }
    else none
  | .reconfigure total laneLimits =>
    match s.broker.reconfigure total laneLimits with
    | some broker => some { s with
        broker
        waiters := s.waiters.notifyAll }
    | none => some s

end Requests

end LoopLab.Llm
