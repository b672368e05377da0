import LoopLab.Lib.Window
import LoopLab.Fold.Dispatch

/-!
# The fold of a whole log

The request queues and the speculative build queue are folded beside the run, row by row.
-/

set_option autoImplicit false

/-!
## The served request queues

An operator's intents are queued and served by position: a receipt names the position it completed.
-/

namespace LoopLab
open Lib

def TRACK_NAME_MAX : Nat := 80
def TRACK_NODES_MAX : Nat := 256

inductive TrackNodes where
  | all
  | ids (xs : List Int)
  deriving DecidableEq, Repr

structure TrackRequest where
  track : String
  nodeIds : TrackNodes

structure LaneOp where
  op : String
  actionId : String
  requestHash : String
  body : Option Obj := none
  proposalId : Option String := none
  requestPath : Option String := none

structure Queues where
  forksDone : Int := 0
  injectRequests : List Obj := []
  injectsDone : Int := 0
  trackRequests : List TrackRequest := []
  tracksDone : Int := 0
  laneOpRequests : List LaneOp := []
  laneOpsDone : Int := 0

/-- `_advance_request_cursor`: the cursor after a receipt naming `idx`, in a queue of `total`. -/
def advanceRequestCursor (done total : Int) (idx : Json) : Int :=
  let total := max 0 total
  let done := min (max 0 done) total
  match idx with
  | .int i => if i < done then done else min (i + 1) total
  | _ => min (done + 1) total

/-- A receipt written before receipts named a position, and of another fork than the head's. -/
def foreignFork (requests : List Obj) (done : Int) (d : Obj) : Bool :=
  !d.has "idx" && (done < requests.length) &&
    match coerceNodeId d "from_node_id",
      coerceNodeId (requests[done.toNat]?.getD []) "from_node_id" with
    | some receipt, some head => receipt ≠ head
    | _, _ => false

def onForkDone (requests : List Obj) (q : Queues) (e : Event) : Queues :=
  if foreignFork requests q.forksDone e.data then q else
  { q with forksDone := advanceRequestCursor q.forksDone requests.length (e.data.get "idx") }

def onInjectNode (q : Queues) (e : Event) : Queues :=
  { q with injectRequests := q.injectRequests ++ [e.data] }

def onInjectDone (q : Queues) (e : Event) : Queues :=
  { q with
    injectsDone := advanceRequestCursor q.injectsDone q.injectRequests.length (e.data.get "idx") }

/-- The nodes a track request names: all of them, or the nonnegative ids of a bounded list. -/
def trackNodes : Json → Option TrackNodes
  | .str "all" => some .all
  | .arr xs => some (.ids (((xs.take TRACK_NODES_MAX).filterMap Json.int?).filter (0 ≤ ·)))
  | _ => none

def onTrackRequested (q : Queues) (e : Event) : Queues :=
  match e.data.get "track", trackNodes (e.data.get "node_ids") with
  | .str track, some nodes =>
    if track = "" then q else
    { q with
      trackRequests := q.trackRequests ++ [⟨Py.cut TRACK_NAME_MAX track, nodes⟩] }
  | _, _ => q

def onTrackDone (q : Queues) (e : Event) : Queues :=
  { q with
    tracksDone := advanceRequestCursor q.tracksDone q.trackRequests.length (e.data.get "idx") }

def laneText (env : Env) (d : Obj) (key : String) (n : Nat) : String :=
  Py.cut n (env.str ((d.get key).orElse (.str "")))

def laneTextIfAny (env : Env) (d : Obj) (key : String) (n : Nat) : Option String :=
  if (d.get key).truthy then some (Py.cut n (env.str (d.get key))) else none

def onLaneOpRequested (env : Env) (q : Queues) (e : Event) : Queues :=
  let d := e.data
  let op : LaneOp :=
    { op := laneText env d "op" 16
      actionId := laneText env d "action_id" 128
      requestHash := laneText env d "request_hash" 64
      body := (d.get "body").obj?
      proposalId := laneTextIfAny env d "proposal_id" 64
      requestPath := laneTextIfAny env d "request_path" 512 }
  { q with laneOpRequests := q.laneOpRequests ++ [op] }

def onLaneOpDone (q : Queues) (e : Event) : Queues :=
  { q with
    laneOpsDone := advanceRequestCursor q.laneOpsDone q.laneOpRequests.length (e.data.get "idx") }

end LoopLab

/-!
## The speculative build queue

Cards are elected for a build ahead of their turn.
-/

namespace LoopLab
open Lib

structure BuildRequest where
  cardId : String
  generation : Int
  deriving DecidableEq, Repr

structure BuildAttempt extends BuildRequest where
  index : Nat

/-- `card_builds_done`, `card_builds_done_ahead` and `card_build_outcomes` are the window. -/
structure Builds where
  requests : List BuildRequest := []
  attempts : List BuildAttempt := []
  window : Window String := {}
  producerFailed : List String := []
  producerFailedReasons : Dict String (List String) := Table.empty
  speculativeNodes : Dict Int BuildRequest := Table.empty

def cardReplayNodeId (v : Json) : Option Int :=
  v.coerceInt.filter fun i => 0 ≤ i && i ≤ CARD_REPLAY_NODE_ID_MAX

def buildIdentity (env : Env) (d : Obj) : Option BuildRequest := do
  let cardId ← cardReplayId env (d.get "card_id")
  let generation ← (d.get "generation").int?
  if (d.get "generation").boundedInt 0 CARD_REPLAY_NODE_ID_MAX then some ⟨cardId, generation⟩ else none

def onCardBuildRequested (env : Env) (st : RunState) (b : Builds) (e : Event) : Builds :=
  match buildIdentity env e.data with
  | some request =>
    if request.generation ≠ st.searchEpoch then b
    else { b with requests := b.requests ++ [request] }
  | none => b

def onCardBuildAttempted (env : Env) (b : Builds) (e : Event) : Builds :=
  match buildIdentity env e.data, e.data.get "index" with
  | some request, .int index =>
    if index < 0 then b
    else { b with attempts := b.attempts ++ [⟨request, index.toNat⟩] }
  | _, _ => b

/-- The position a close names: the head where it names none, nothing where it is not open. -/
def namedPosition (w : Window String) (d : Obj) : Option Nat :=
  match d.get "index" with
  | .null => some w.done
  | .int i =>
    if i < w.done || w.ahead.any (fun p : Nat => (p : Int) = i) then none else some i.toNat
  | _ => none

def sameRequest (env : Env) (request : BuildRequest) (d : Obj) : Bool :=
  cardReplayId env (d.get "card_id") = some request.cardId &&
    (d.get "generation").int? = some request.generation

def closedRequest (env : Env) (b : Builds) (d : Obj) : Option (Nat × BuildRequest) := do
  let p ← namedPosition b.window d
  let request ← b.requests[p]?
  if sameRequest env request d then some (p, request) else none

def committedNode (st : RunState) (request : BuildRequest) (d : Obj) : Option Node := do
  if !(d.get "skipped").isNull || !(d.get "speculative").isTrue then none else
  let n ← (cardReplayNodeId (d.get "node_id")).bind st.nodes.get
  if n.idea.cardId = some request.cardId && n.speculative &&
      n.cardBuildGeneration = some request.generation then some n else none

inductive BuildEnd where
  | skipped (word : String)
  | committed (node : Node)

def BuildEnd.outcome : BuildEnd → String
  | .skipped word => word
  | .committed _ => "committed"

def buildEnd (st : RunState) (request : BuildRequest) (d : Obj) : Option BuildEnd :=
  match (d.get "skipped").str?.filter (["producer_failed", "stale"].contains ·) with
  | some word => some (.skipped word)
  | none => (committedNode st request d).map .committed

def giveUp (b : Builds) (cardId : String) (reason : Json) : Builds :=
  let text := (reason.str?.map fun s => Py.cut 64 (Py.strip s)).getD ""
  { b with
    producerFailed := if b.producerFailed.contains cardId then b.producerFailed
      else b.producerFailed ++ [cardId]
    producerFailedReasons := b.producerFailedReasons.set cardId
      (((b.producerFailedReasons.get cardId).getD []) ++ [text]) }

def closeCardBuildRequest (b : Builds) (p : Nat) (outcome : String) : Builds :=
  { b with window := b.window.close p outcome }

def onCardBuildDone (env : Env) (st : RunState) (b : Builds) (e : Event) : Builds :=
  match closedRequest env b e.data with
  | none => b
  | some (p, request) =>
    match buildEnd st request e.data with
    | none => b
    | some ending =>
      let closed := closeCardBuildRequest b p ending.outcome
      match ending with
      | .skipped word =>
        if word = "producer_failed" then giveUp closed request.cardId (e.data.get "skipped_reason")
        else closed
      | .committed n =>
        { closed with speculativeNodes := closed.speculativeNodes.set n.id request }

def openCardBuildRequestIds (b : Builds) : List String :=
  (b.requests.zipIdx.filter fun r => decide (¬ b.window.IsClosed r.2)).map fun r => r.1.cardId

end LoopLab

/-!
## The fold of a whole log

The request queues and the build queue beside the run. Their rows read the run and never write it,
so the run of a log is the one its own rows give.
-/

namespace LoopLab
open Lib

inductive RowType where
  | forkDone | injectNode | injectDone | trackRequested | trackDone | laneOpRequested | laneOpDone
  | cardBuildRequested | cardBuildAttempted | cardBuildDone
  deriving DecidableEq, Repr

namespace RowType

def name : RowType → String
  | forkDone => "fork_done"
  | injectNode => "inject_node"
  | injectDone => "inject_done"
  | trackRequested => "track_requested"
  | trackDone => "track_done"
  | laneOpRequested => "lane_op_requested"
  | laneOpDone => "lane_op_done"
  | cardBuildRequested => "card_build_requested"
  | cardBuildAttempted => "card_build_attempted"
  | cardBuildDone => "card_build_done"

def all : List RowType :=
  [forkDone, injectNode, injectDone, trackRequested, trackDone, laneOpRequested, laneOpDone,
   cardBuildRequested, cardBuildAttempted, cardBuildDone]

def ofName (s : String) : Option RowType := all.find? (·.name = s)

theorem ofName_name (t : RowType) : ofName t.name = some t := by
  cases t <;> decide

theorem name_of_ofName {s : String} {t : RowType} (h : ofName s = some t) : t.name = s := by
  simpa using List.find?_some h

theorem not_run (t : RowType) : EventType.ofName t.name = none := by
  cases t <;> decide +kernel

end RowType

def Event.row (e : Event) : Option RowType := RowType.ofName e.type

structure LogState where
  run : FoldState := {}
  queues : Queues := {}
  builds : Builds := {}

section Step
variable (env : Env)

def handleQueue (s : LogState) (e : Event) : RowType → LogState
  | .forkDone => { s with queues := onForkDone s.run.st.forkRequests s.queues e }
  | .injectNode => { s with queues := onInjectNode s.queues e }
  | .injectDone => { s with queues := onInjectDone s.queues e }
  | .trackRequested => { s with queues := onTrackRequested s.queues e }
  | .trackDone => { s with queues := onTrackDone s.queues e }
  | .laneOpRequested => { s with queues := onLaneOpRequested env s.queues e }
  | .laneOpDone => { s with queues := onLaneOpDone s.queues e }
  | .cardBuildRequested => { s with builds := onCardBuildRequested env s.run.st s.builds e }
  | .cardBuildAttempted => { s with builds := onCardBuildAttempted env s.builds e }
  | .cardBuildDone => { s with builds := onCardBuildDone env s.run.st s.builds e }

def logStep (s : LogState) (e : Event) : LogState :=
  match e.row with
  | some t => handleQueue env s e t
  | none => { s with run := step env s.run e }

def replayLog (log : List Event) : LogState := log.foldl (logStep env) {}

end Step

theorem replayLog_snoc (env : Env) (log : List Event) (e : Event) :
    replayLog env (log ++ [e]) = logStep env (replayLog env log) e := by
  simp [replayLog]

theorem logStep_row {env : Env} {s : LogState} {e : Event} {t : RowType} (h : e.row = some t) :
    logStep env s e = handleQueue env s e t := by
  unfold logStep
  rw [h]

theorem logStep_other {env : Env} {s : LogState} {e : Event} (h : e.row = none) :
    logStep env s e = { s with run := step env s.run e } := by
  unfold logStep
  rw [h]

theorem replayLog_invariant {P : LogState → Prop} (env : Env) (hinit : P {})
    (hstep : ∀ s e, P s → P (logStep env s e)) (log : List Event) : P (replayLog env log) := by
  induction log using List.reverseRecOn with
  | nil => exact hinit
  | append_singleton log e ih =>
    rw [replayLog_snoc]
    exact hstep _ e ih

end LoopLab
