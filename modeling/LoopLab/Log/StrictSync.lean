import Mathlib.Data.Option.Basic
import Mathlib.Logic.Function.Basic

/-!
# Strict syncs

A strict sync duplicates a descriptor and lets a worker sync and close it, so that the caller can give up at its
deadline.
-/

set_option autoImplicit false

namespace LoopLab.StrictSync

/-- `_STRICT_FSYNC_ACTIVE_TOKEN` and `_STRICT_FSYNC_STALLED_TOKEN`; a call is its own token. -/
structure Gate where
  active : Option Nat
  stalled : Option Nat
  deriving DecidableEq

/-- What a call does next. -/
inductive CallPhase where
  | entering
  | waiting (notified : Bool)
  | acquired
  | duplicated
  | closing
  | releasing
  | quarantining
  | awaiting
  | expired
  | rechecking
  | returned
  | raised
  deriving DecidableEq

/-- What the worker of a call does next. -/
inductive WorkerPhase where
  | absent
  | syncing
  | closing
  | signalling
  | clearing
  | ended
  deriving DecidableEq

inductive Syscall where
  | fsync
  | close
  deriving DecidableEq

/-- A call; the last three fields are what it did to its duplicate, with the outcomes. -/
structure Call where
  phase : CallPhase := .entering
  worker : WorkerPhase := .absent
  done : Bool := false
  failure : List Syscall := []
  dups : Nat := 0
  syncs : List Bool := []
  closes : List Bool := []
  deriving DecidableEq

/-- How `worker.start()` ends: an interruption leaves the worker to run when it will. -/
inductive Start where
  | started
  | refused
  | interrupted

/-- The steps of a call and of its worker. -/
inductive Act where
  | enter (overdue : Bool)
  | wake (timedOut : Bool)
  | dup (ok : Bool)
  | prepareFails
  | start (outcome : Start)
  | close (ok : Bool)
  | release
  | quarantine
  | complete
  | expire
  | interrupt
  | giveUp
  | recheck
  | workerSync (ok : Bool)
  | workerClose (ok : Bool)
  | workerSignal
  | workerClear

/-- The outcome of a step; `notify` wakes every waiting call. -/
structure Turn where
  call : Call
  gate : Gate
  notify : Bool := false

/-- The tokens without `token`. -/
def Gate.clear (gate : Gate) (token : Nat) : Gate :=
  ⟨if gate.active = some token then none else gate.active, if gate.stalled = some token then none else gate.stalled⟩

/-- `token` is marked as stalled where it is the active one. -/
def Gate.stall (gate : Gate) (token : Nat) : Gate :=
  if gate.active = some token then { gate with stalled := some token } else gate

/-- The end of a call whose worker is done. -/
def Call.report (call : Call) : Call :=
  { call with phase := if call.failure = [] then .returned else .raised }

/-- `_sync` -/
def Call.workerTurn (token : Nat) (gate : Gate) (call : Call) (act : Act) : Option Turn :=
  match call.worker, act with
  | .syncing, .workerSync ok =>
    some ⟨{ call with worker := .closing, syncs := ok :: call.syncs, failure := if ok then call.failure else call.failure ++ [.fsync] },
      gate, false⟩
  | .closing, .workerClose ok =>
    some ⟨{ call with
      worker := .signalling, closes := ok :: call.closes, failure := if ok then call.failure else call.failure ++ [.close] },
      gate, false⟩
  | .signalling, .workerSignal => some ⟨{ call with worker := .clearing, done := true }, gate, false⟩
  | .clearing, .workerClear => some ⟨{ call with worker := .ended }, gate.clear token, true⟩
  | _, _ => none

/-- `strict_fsync` -/
def Call.callerTurn (token : Nat) (gate : Gate) (call : Call) (act : Act) : Option Turn :=
  match call.phase, act with
  | .entering, .enter overdue =>
    if gate.active = none then some ⟨{ call with phase := .acquired }, { gate with active := some token }, false⟩
    else if gate.stalled = gate.active ∨ overdue then some ⟨{ call with phase := .raised }, gate, false⟩
    else some ⟨{ call with phase := .waiting false }, gate, false⟩
  | .waiting notified, .wake timedOut =>
    if notified ∨ timedOut then some ⟨{ call with phase := .entering }, gate, false⟩ else none
  | .acquired, .dup ok =>
    some ⟨if ok then { call with phase := .duplicated, dups := call.dups + 1 } else { call with phase := .releasing }, gate, false⟩
  | .duplicated, .prepareFails => some ⟨{ call with phase := .closing }, gate, false⟩
  | .duplicated, .start .started => some ⟨{ call with phase := .awaiting, worker := .syncing }, gate, false⟩
  | .duplicated, .start .refused => some ⟨{ call with phase := .closing }, gate, false⟩
  | .duplicated, .start .interrupted => some ⟨{ call with phase := .quarantining, worker := .syncing }, gate, false⟩
  | .closing, .close ok => some ⟨{ call with phase := .releasing, closes := ok :: call.closes }, gate, false⟩
  | .releasing, .release => some ⟨{ call with phase := .raised }, gate.clear token, true⟩
  | .quarantining, .quarantine => some ⟨{ call with phase := .raised }, gate.stall token, gate.active = some token⟩
  | .awaiting, .complete => if call.done then some ⟨call.report, gate, false⟩ else none
  | .awaiting, .expire => some ⟨{ call with phase := .expired }, gate, false⟩
  | .awaiting, .interrupt => some ⟨{ call with phase := .quarantining }, gate, false⟩
  | .expired, .giveUp =>
    if gate.active = some token then some ⟨{ call with phase := .raised }, gate.stall token, true⟩
    else some ⟨{ call with phase := .rechecking }, gate, false⟩
  | .rechecking, .recheck => some ⟨if call.done then call.report else { call with phase := .raised }, gate, false⟩
  | _, _ => none

def Call.turn (token : Nat) (gate : Gate) (call : Call) (act : Act) : Option Turn :=
  (call.callerTurn token gate act).or (call.workerTurn token gate act)

/-- `notify_all` on a call of the process. -/
def Call.notified (call : Call) : Call :=
  { call with phase := match call.phase with | .waiting _ => .waiting true | phase => phase }

/-- The process: its tokens and the calls that it ever makes. -/
structure World where
  gate : Gate := ⟨none, none⟩
  calls : Nat → Call := fun _ => {}

def World.after (w : World) (c : Nat) (t : Turn) : World :=
  ⟨t.gate, Function.update (fun d => if t.notify then (w.calls d).notified else w.calls d) c t.call⟩

/-- The call `c`, or its worker, takes a step. -/
def World.step (w : World) (c : Nat) (act : Act) : Option World :=
  ((w.calls c).turn c w.gate act).map (w.after c)

inductive Reachable : World → Prop
  | start : Reachable {}
  | step {w w' : World} {c : Nat} {act : Act} (h : Reachable w) (hstep : w.step c act = some w') : Reachable w'

end LoopLab.StrictSync
