import LoopLab.Engine.Commit

/-!
# The service of the build queue

An engine elects a card, starts a producer for its request, and ends the request by a row: what was built becomes a
node, or is refused, or the producer gave up.
-/

set_option autoImplicit false

namespace LoopLab.Engine.Speculation
open Lib

/-- `UNRECONCILED_AFTER_RESTART` -/
def unreconciledAfterRestart : String := "unreconciled_after_restart"

structure Producer where
  position : Nat
  cancelled : Bool := false

/-- What a service reads of a result, and the position its producer was started for. -/
structure Finished where
  position : Nat
  success : Bool
  reused : Bool := false

structure Workshop where
  /-- The log as the process found it; `_spec_entry_seq` is its last row. -/
  entry : List Event := []
  inflight : Dict BuildRequest Producer := Table.empty
  builds : Dict BuildRequest Finished := Table.empty
  reusable : Dict BuildRequest Finished := Table.empty
  requestBuilder : Dict BuildRequest Nat := Table.empty
  builderGeneration : Nat := 0
  /-- `_eval_budget_stop is not None`; only the end of the process clears it. -/
  ceilingHeld : Bool := false
  met : List Nat := []
  ended : List (Nat × Bool) := []

/-- The log, the engine at work on it, and the positions producers were started for by any process. -/
structure BuildService where
  log : List Event := []
  shop : Workshop := {}
  starts : List Nat := []

/-! ## What the log says -/

section Reads
variable (env : LedgerEnv) (key : BuildRequest) (log : List Event)

def queueOf : Builds := (replayBoard env log).log.builds

def outstandingRequests : List BuildRequest :=
  ((queueOf env log).requests.zipIdx.filter fun r =>
    decide (¬ (queueOf env log).window.IsClosed r.2)).map Prod.fst

def matchingCreatedSpeculation : Option Int :=
  ((foldedRun env log).nodes.rows.filter fun n =>
    !(queueOf env log).speculativeNodes.has n.id && n.idea.cardId = some key.cardId && n.speculative
      && n.cardBuildGeneration = some key.generation).map Node.id |>.min?

/-- `_dead_card`: whether the card is closed to further work, and whether it is absent. -/
def deadCard (cardId : String) : Bool × Bool :=
  let cards := foldedCards env log
  let mergedAway := !cards.has cardId && cards.rows.any (·.aliases.contains cardId)
  (mergedAway || (cards.get cardId).any (·.status = .dropped), mergedAway)

def headHasUnreconciledAttempt : Bool :=
  let index := (requestPosition env key log).getD (queueOf env log).window.done
  (queueOf env log).attempts.any fun a => a.index = index && a.toBuildRequest = key

def attemptPredatesThisProcess (entry : List Event) : Bool :=
  let index := (requestPosition env key log).getD (queueOf env log).window.done
  entry.any fun e => e.type = "card_build_attempted" && (e.data.get "card_id").eqStr key.cardId
    && (e.data.get "generation").int? = some key.generation && (e.data.get "index").int? = some index

end Reads

/-! ## The rows of the queue -/

def queueRow (ts : Rat) (log : List Event) (type : String) (data : Obj) : Event where
  seq := lastSeq log + 1
  ts
  type
  data

def keyData (key : BuildRequest) : Obj := [("card_id", .str key.cardId), ("generation", .int key.generation)]

/-- How a request is closed: by its node, or by a word and perhaps a reason. -/
inductive Closing where
  | node (id : Int)
  | skip (word : String) (reason : Option String)

def Closing.skips : Closing → Bool
  | .node _ => false
  | .skip _ _ => true

/-- `live` is for a request whose producer still runs. -/
def doneData (key : BuildRequest) (live : Bool) : Closing → Obj
  | .node id => keyData key ++ [("node_id", .int id), ("speculative", .bool true)]
  | .skip word reason =>
    keyData key ++ [("skipped", .str word)]
      ++ (match reason.map Py.strip with
        | some text => if text = "" then [] else [("skipped_reason", .str (Py.cut 64 text))]
        | none => [])
      ++ (if live then [("producer_cancelled", .bool true)] else [])

section Close
variable (env : LedgerEnv) (key : BuildRequest)

/-- The `_plan` of a close: the head closes without a position, another request names its own. -/
def closePlan (ts : Rat) (data : Obj) (log : List Event) : Planned Event Bool :=
  match requestPosition env key log with
  | none => .ends (outstandingRequests env log).isEmpty
  | some p =>
    let row := if p = (queueOf env log).window.done then data else data ++ [("index", .int p)]
    .adds (queueRow ts log "card_build_done" row) true

def cancelBuildProducer (shop : Workshop) : Workshop :=
  match shop.inflight.get key with
  | none => shop
  | some producer => { shop with inflight := shop.inflight.set key { producer with cancelled := true } }

/-- `_append_card_build_done`; `moves` has what others append while each try plans. -/
def appendCardBuildDone (closing : Closing) (ts : Rat) (moves : List (List Event)) (s : BuildService) :
    Bool × BuildService :=
  let live := closing.skips && (s.shop.inflight.get key).isSome
  let (ended, j) :=
    (Journal.mk s.log []).retry (closePlan env key ts (doneData key live closing)) casAttempts moves
  let closed := ended = some true
  (closed, { s with
    log := j.log
    shop := if closed && live then cancelBuildProducer key s.shop else s.shop })

end Close

/-! ## One service -/

inductive Answer where
  | closed | budget | retry | producerFailed
  | created (nodeId : Int)
  | stale (why : String)

structure Turn where
  allowCommit : Bool := true
  maxEvalSeconds : Option Rat := none
  /-- `_speculative_producer_width(state) > 1` -/
  wide : Bool := false
  answer : Answer := .retry
  claimRows : List Event := []
  moves : List (List Event) := []
  ts : Rat := 0

/-- When the result is let go: there is none, ahead of the close, ahead of it with the note of who built
it once it lands, or once it lands. -/
inductive Release where
  | nothing | before | replaced | after
  deriving DecidableEq

inductive Exit where
  | leaves
  | lets
  | claims (draining : Bool)
  | closes (closing : Closing) (release : Release)

section Serve
variable (env : LedgerEnv) (key : BuildRequest) (t : Turn) (s : BuildService)

/-- `_serve_card_builds`, up to its claim. -/
def exitOf : Exit :=
  let state := foldedRun env s.log
  match matchingCreatedSpeculation env key s.log with
  | some id => .closes (.node id) .before
  | none =>
    let budgetExhausted := t.maxEvalSeconds.any fun limit => decide (limit ≤ state.totalEvalSeconds)
    let draining := pauseDrainsBuilds state && !s.shop.ceilingHeld
    let stopping := state.halted && !draining
    let refused := !t.allowCommit && !draining
    let rotated := decide (key.generation ≠ state.searchEpoch)
    let worldMoved := rotated || stopping || budgetExhausted
    let dead := deadCard env s.log key.cardId
    let running := (s.shop.inflight.get key).isSome
    let finished := s.shop.builds.get key
    let deadInProcess := dead.1 && (running || finished.any Finished.success)
    let gone := if dead.2 then "card_gone" else "card_dropped"
    if refused && !worldMoved && !deadInProcess && (running || finished.isSome) then .leaves
    else if worldMoved || deadInProcess || refused then
      .closes (.skip "stale" (some (if rotated then "search_epoch_rotated"
        else if stopping then "run_is_stopping"
        else if budgetExhausted then "eval_budget_exhausted"
        else if deadInProcess then gone else "commit_not_allowed"))) .before
    else
      match finished with
      | none =>
        if !running && headHasUnreconciledAttempt env key s.log then
          .closes (.skip "producer_failed"
            (if attemptPredatesThisProcess env key s.log s.shop.entry then some unreconciledAfterRestart
              else none)) .nothing
        else if !running && dead.1 then .closes (.skip "stale" (some gone)) .nothing
        else if draining && !running then .closes (.skip "stale" (some "run_is_stopping")) .nothing
        else .leaves
      | some result =>
        if (s.shop.requestBuilder.get key).getD s.shop.builderGeneration ≠ s.shop.builderGeneration then
          .closes (.skip "stale" (some "builder_replaced")) .replaced
        else if !result.success then .closes (.skip "producer_failed" none) .before
        else .claims draining

def afterClaim (draining : Bool) : Answer → Exit
  | .retry => .leaves
  | .closed => .lets
  | .budget => if draining then .closes (.skip "stale" (some "run_is_stopping")) .after else .leaves
  | .created id => .closes (.node id) .after
  | .stale why => .closes (.skip "stale" (some why)) .after
  | .producerFailed => .closes (.skip "stale" none) .after

def dropResult (shop : Workshop) : Workshop := { shop with builds := shop.builds.erase key }

/-- The board refused an intact build: wider than one producer it is kept for one more election. -/
def keepForReuse (closing : Closing) (shop : Workshop) : Workshop :=
  match closing, shop.builds.get key with
  | .skip _ (some "not_selected_now"), some result =>
    if t.wide && !result.reused then { shop with reusable := shop.reusable.set key result } else shop
  | _, _ => shop

def releaseLanded (closing : Closing) (shop : Workshop) : Release → Workshop
  | .nothing | .before => shop
  | .replaced => { shop with requestBuilder := shop.requestBuilder.erase key }
  | .after => dropResult key (keepForReuse key t closing shop)

def closeRequest (closing : Closing) (release : Release) : BuildService :=
  let shop := if release = .before ∨ release = .replaced then dropResult key s.shop else s.shop
  let (closed, s) := appendCardBuildDone env key closing t.ts t.moves { s with shop }
  if closed then { s with shop := releaseLanded key t closing s.shop release } else s

def takeExit : Exit → BuildService
  | .leaves | .claims _ => s
  | .lets => { s with shop := dropResult key s.shop }
  | .closes closing release => closeRequest env key t s closing release

/-- `_serve_card_builds` of an open request -/
def serveCardBuilds : BuildService :=
  match exitOf env key t s with
  | .claims draining =>
    takeExit env key t { s with log := s.log ++ t.claimRows } (afterClaim draining t.answer)
  | exit => takeExit env key t s exit

end Serve

/-! ## One start -/

/-- What the plan and the pool of producer pairs answer a start; a pool that gave none is asked again
until its retries are spent. -/
inductive Pair where
  | refused | ready | missing | spent

section Start
variable (env : LedgerEnv) (key : BuildRequest) (ts : Rat) (moves : List (List Event)) (s : BuildService)

def startProducer (p : Nat) : BuildService where
  log := s.log ++ [queueRow ts s.log "card_build_attempted" (keyData key ++ [("index", .int p)])]
  shop := { s.shop with
    inflight := s.shop.inflight.set key { position := p }
    requestBuilder := s.shop.requestBuilder.set key s.shop.builderGeneration }
  starts := s.starts ++ [p]

def reuses : Bool :=
  key.generation = (foldedRun env s.log).searchEpoch
    && (s.shop.requestBuilder.get key).getD s.shop.builderGeneration = s.shop.builderGeneration

/-- `_start_request_producer`, past the gate of the slots -/
def startRequestProducer (p : Nat) (pair : Pair) : BuildService :=
  if (s.shop.inflight.get key).isSome || (s.shop.builds.get key).isSome then s
  else
    let kept := s.shop.reusable.get key
    let rest : Workshop := { s.shop with reusable := s.shop.reusable.erase key }
    match kept.filter fun _ => reuses env key s with
    | some result => { s with shop := { rest with builds := rest.builds.set key { result with reused := true } } }
    | none =>
      let s := { s with shop := rest }
      match pair with
      | .refused => (appendCardBuildDone env key (.skip "stale" (some "plan_refused")) ts moves s).2
      | .spent => (appendCardBuildDone env key (.skip "stale" (some "producer_unavailable")) ts moves s).2
      | .missing => s
      | .ready => startProducer key ts s p

end Start

/-! ## The engine on its log -/

inductive Ended where
  | returned (success : Bool)
  | ceiling

/-- `_run_isolated_producer`, as the worker ends: a build whose request was closed stores nothing. -/
def finishProducer (key : BuildRequest) (how : Ended) (producer : Producer) (shop : Workshop) : Workshop :=
  let shop := { shop with inflight := shop.inflight.erase key }
  match how with
  | .ceiling => { shop with ceilingHeld := true }
  | .returned success =>
    let shop := { shop with ended := shop.ended ++ [(producer.position, success)] }
    if producer.cancelled then shop
    else { shop with builds := shop.builds.set key { position := producer.position, success } }

def dropProducerPool (shop : Workshop) : Workshop :=
  { shop with builderGeneration := shop.builderGeneration + 1, reusable := Table.empty }

def discardOrphanedSpecResults (env : LedgerEnv) (s : BuildService) : Workshop :=
  let outstanding := outstandingRequests env s.log
  let epoch := (foldedRun env s.log).searchEpoch
  let cancelled := (s.shop.inflight.rows.map Prod.fst).foldl (fun shop key =>
    if outstanding.contains key then shop else cancelBuildProducer key shop) s.shop
  { cancelled with
    builds := cancelled.builds.keep fun r => outstanding.contains r.1
    reusable := cancelled.reusable.keep fun r => r.1.generation = epoch &&
      ((foldedCards env s.log).get r.1.cardId).any fun card => card.status ≠ .dropped }

def foreign (rows : List Event) : Bool :=
  rows.all fun e => !([some RowType.cardBuildRequested, some .cardBuildAttempted, some .cardBuildDone].contains e.row)

inductive Act where
  | others (rows : List Event)
  | elect (cardId : String) (ts : Rat)
  | serve (key : BuildRequest) (t : Turn)
  | start (key : BuildRequest) (pair : Pair) (ts : Rat) (moves : List (List Event))
  | finish (key : BuildRequest) (how : Ended)
  | swap
  | sweep
  | restart

section Step
variable (env : LedgerEnv)

def answered (key : BuildRequest) (log : List Event) : Answer → Bool
  | .created id => ((foldedRun env log).nodes.get id).any fun n =>
      n.idea.cardId = some key.cardId && n.speculative && n.cardBuildGeneration = some key.generation
  | .closed => (requestPosition env key log).isNone
  | _ => true

/-- One step, where it can be taken. A card is elected under its own id while no request for it is open;
a session serves every open request before it starts a producer for one, and starts none once a spend
ceiling is held, under which a commit is refused to all but a finished build. -/
def step (s : BuildService) : Act → Option BuildService
  | .others rows => if foreign rows then some { s with log := s.log ++ rows } else none
  | .elect cardId ts =>
    if cardReplayId env.toEnv (.str cardId) = some cardId
        && !(outstandingRequests env s.log).any (·.cardId = cardId) then
      let key : BuildRequest := ⟨cardId, (foldedRun env s.log).searchEpoch⟩
      let log := s.log ++ [queueRow ts s.log "card_build_requested" (keyData key)]
      some { s with log, shop := { s.shop with met := s.shop.met ++ (requestPosition env key log).toList } }
    else none
  | .serve key t =>
    match requestPosition env key s.log with
    | none => none
    | some p =>
      if foreign t.claimRows && t.moves.all foreign && answered env key (s.log ++ t.claimRows) t.answer
          && (!s.shop.ceilingHeld || !t.allowCommit || (s.shop.builds.get key).isSome) then
        let s := serveCardBuilds env key t s
        some { s with shop := { s.shop with met := s.shop.met ++ [p] } }
      else none
  | .start key pair ts moves =>
    match requestPosition env key s.log with
    | none => none
    | some p =>
      if moves.all foreign && !s.shop.ceilingHeld && s.shop.met.contains p then
        some (startRequestProducer env key ts moves s p pair)
      else none
  | .finish key how => (s.shop.inflight.get key).map fun producer =>
      { s with shop := finishProducer key how producer s.shop }
  | .swap => some { s with shop := dropProducerPool s.shop }
  | .sweep => some { s with shop := discardOrphanedSpecResults env s }
  | .restart => some { s with shop := { entry := s.log } }

end Step

end LoopLab.Engine.Speculation
