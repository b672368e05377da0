import LoopLab.Engine.CardDrops
import LoopLab.Ledger.Derive
import LoopLab.Ledger.Drops
import LoopLab.Lib.Journal

/-!
# The commit of a paid build

A finished build is claimed against the fold of the log, reserved by a marker row, and checked once more at each
try to append its node.
-/

set_option autoImplicit false

namespace LoopLab
open Lib

def foldedRun (env : LedgerEnv) (log : List Event) : RunState := (cardInputs env (replayBoard env log)).st

def RunState.halted (st : RunState) : Bool := st.paused || st.finished || st.stopRequested.truthy

def droppedReason (env : LedgerEnv) (log : List Event) (cardId : String) : Option String :=
  let inputs := cardInputs env (replayBoard env log)
  ((standingDrops env (mergedLedger env inputs).aliases inputs.board).mark cardId).bind
    DropMark.droppedReason

namespace Engine

/-! ## The reservation and the result -/

/-- `_BuildReservation`, with the generation of every parent and of nothing else. -/
structure Reservation where
  nodeId : Int
  kind : String
  parentIds : List Int := []
  parentGenerations : Dict Int Nat := Table.empty
  cardId : String
  idea : Idea
  covered : ∀ p, p ∈ parentIds ↔ parentGenerations.get p ≠ none

structure BuiltIdea extends Idea where
  payload : Obj := []

/-- One isolated producer result. A build that succeeded has its idea, and the roles that built it. -/
structure SpecBuildResult where
  key : BuildRequest
  success : Bool
  idea : Option BuiltIdea := none
  roles : Bool := false
  code : String := ""
  files : Obj := []
  deleted : List String := []
  footprintFinalized : Bool := false
  crossRunReceipt : Obj := []
  authoredBase : Option Obj := none
  paired : success = true → idea.isSome → roles = true

/-- The action a claim commits and what it reserves: both are for the card of the request. -/
structure Elected (key : BuildRequest) where
  kind : String
  reservation : Reservation
  ofKind : reservation.kind = kind
  ofCard : reservation.cardId = key.cardId
  ofIdea : reservation.idea.cardId = some key.cardId

/-- What the slots, the policy and the reservation of the card answer a claim. -/
inductive Choice (key : BuildRequest) where
  | budget
  | stale (why : String)
  | reserved (e : Elected key)

structure Committer (key : BuildRequest) where
  choose : List Event → Choice key
  maxEvalSeconds : Option Rat := none
  /-- `_eval_budget_stop is not None` -/
  ceilingHeld : Bool := false
  /-- `_research_origin_for_node` -/
  origin : Json := .null
  moment : Moment := {}
  ids : Option String × Option String := (none, none)

/-! ## What the log says -/

def parentGenerationsCurrent (st : RunState) (generations : Dict Int Nat) : Bool :=
  generations.rows.all fun row =>
    (st.nodes.get row.1).any (fun n => n.attempt = row.2 && !n.tombstoned) && !st.aborted row.1

def pauseDrainsBuilds (st : RunState) : Bool :=
  st.paused && st.pauseDrainBuilds && !st.finished && !st.stopRequested.truthy

section Halts
variable {key : BuildRequest} (c : Committer key) (st : RunState)

def Committer.drainsBuildsNow : Bool := pauseDrainsBuilds st && !c.ceilingHeld

def Committer.overBudget : Bool := c.maxEvalSeconds.any (decide <| · ≤ st.totalEvalSeconds)

def Committer.transient (env : LedgerEnv) (log : List Event) : Bool :=
  let latest := foldedRun env log
  (latest.halted && !c.drainsBuildsNow latest) || c.overBudget latest

end Halts

section Reads
variable (env : LedgerEnv) (key : BuildRequest) (log : List Event)

def superseded (r : Reservation) : Bool :=
  let latest := foldedRun env log
  latest.searchEpoch ≠ key.generation
    || latest.aborted r.nodeId
    || !(foldedCards env log).has key.cardId
    || (droppedReason env log key.cardId).isSome
    || !parentGenerationsCurrent latest r.parentGenerations

def reservationMintedCard (nodeId : Int) (cardId : String) : Bool :=
  match canonicalCardId env (.str cardId) with
  | none => false
  | some canonical => log.all fun e =>
    let d := e.data
    if e.type = "node_building" then
      !((d.get "card_attached").isTrue && (d.get "node_id").eqInt nodeId
        && canonicalCardId env (d.get "card_id") = some canonical)
    else if e.type = "node_created" then
      match d.get "idea" with
      | .obj idea => !(canonicalCardId env (Obj.get idea "card_id") = some canonical
        && !(d.get "node_id").eqInt nodeId)
      | _ => true
    else true

def requestPosition : Option Nat :=
  let b := (replayBoard env log).log.builds
  (b.requests.zipIdx.find? fun r => r.1 = key && decide (¬ b.window.IsClosed r.2)).map Prod.snd

end Reads

/-! ## The rows -/

section Rows
variable {key : BuildRequest} (c : Committer key)

def Committer.row (log : List Event) (type : String) (data : Obj) : Event where
  seq := lastSeq log + 1
  ts := c.moment.time 0
  type
  data
  traceId := c.ids.1
  spanId := c.ids.2

def ints (ids : List Int) : Json := .arr (ids.map Json.int)

def nodeBuildingData (key : BuildRequest) (operator : String) (r : Reservation) : Obj :=
  [("node_id", .int r.nodeId), ("operator", .str operator), ("parent_ids", ints r.parentIds),
   ("card_id", .str r.cardId), ("speculative", .bool true),
   ("card_build_generation", .int key.generation)]

/-- The row of `_emit_node_created`, as the commit calls it. -/
def nodeCreatedData (key : BuildRequest) (r : Reservation) (result : SpecBuildResult) (idea : BuiltIdea)
    (origin : Json) : Obj :=
  [("node_id", .int r.nodeId), ("parent_ids", ints r.parentIds), ("operator", .str idea.operator),
   ("idea", .obj idea.payload), ("code", .str result.code), ("files", .obj result.files),
   ("deleted", .arr (result.deleted.map Json.str)), ("research_origin", origin)]
  ++ (if r.parentGenerations.rows.isEmpty then [] else
    [("parent_generations", .obj (r.parentGenerations.rows.map fun row =>
      (toString row.1, Json.int row.2)))])
  ++ [("cross_run_receipt", .obj result.crossRunReceipt)]
  ++ (if result.footprintFinalized then [("footprint_finalized", .bool true)] else [])
  ++ [("speculative", .bool true), ("card_build_generation", .int key.generation),
   ("eval_start_boundary", .bool true)]
  ++ (match result.authoredBase with
    | some base => [("base_selector", .obj base)]
    | none => [])

def nodeFailedData (r : Reservation) (reason error : String) : Obj :=
  [("node_id", .int r.nodeId), ("generation", .int 0), ("error", .str error), ("reason", .str reason),
   ("eval_seconds", .float 0), ("card_id", .str r.cardId), ("never_evaluated", .bool true)]

end Rows

/-! ## The writers -/

section Writers
variable (env : LedgerEnv) {key : BuildRequest} (c : Committer key)

/-- `_drop_card_once`, with nobody in between. -/
def Committer.dropOnce (cardId reason : String) (j : Journal Event) : Journal Event :=
  match cardAutoDropRow env j.log (some cardId) reason "engine" with
  | none => j
  | some (type, data) => j.append (c.row j.log type data)

/-- `_fail_reserved_build` of a build no evaluation was started for. -/
def Committer.failReservedBuild (r : Reservation) (reason error : String) (dropCard : Bool)
    (j : Journal Event) : Journal Event :=
  let j := if r.cardId ≠ "" && dropCard && reservationMintedCard env j.log r.nodeId r.cardId
    then c.dropOnce env r.cardId reason j else j
  j.append (c.row j.log "node_failed" (nodeFailedData r reason error))

inductive CommitEnd where
  | created
  | closed (superseded : Bool)

/-- `_plan` of the commit -/
def Committer.plan (r : Reservation) (result : SpecBuildResult) (idea : BuiltIdea) (log : List Event) :
    Planned Event CommitEnd :=
  if superseded env key log r || c.transient env log then .ends (.closed (superseded env key log r))
  else .adds (c.row log "node_created" (nodeCreatedData key r result idea c.origin)) .created

def casAttempts : Nat := 64

/-- `_create_precoded_node`, up to the row of the node; `moves` has what others append while each try
plans. -/
def Committer.createPrecodedNode (kind : String) (r : Reservation) (result : SpecBuildResult)
    (moves : List (List Event)) (j : Journal Event) : Journal Event :=
  match result.idea with
  | none => c.failReservedBuild env r "superseded" "invalid precoded Card result" true j
  | some idea =>
    if !result.success || !result.roles || r.cardId ≠ result.key.cardId
        || idea.cardId ≠ some result.key.cardId || r.kind ≠ kind || result.key.generation < 0 then
      c.failReservedBuild env r "superseded" "invalid precoded Card result" true j
    else
      match j.retry (c.plan env r result idea) casAttempts moves with
      | (some .created, j) => j
      | (some (.closed true), j) =>
        c.failReservedBuild env r "superseded" "speculative build became stale before commit" true j
      | (some (.closed false), j) =>
        c.failReservedBuild env r "frozen"
          "speculative build frozen before commit (pause/stop/budget)" false j
      | (none, j) =>
        c.failReservedBuild env r "superseded" "speculative node commit lost its event-tail CAS" true j

def sameIdea (a b : Idea) : Bool :=
  a.cardId = b.cardId && a.operator = b.operator && a.params.pyEq b.params && a.space.pyEq b.space
    && a.evalProfile = b.evalProfile && a.evalTimeout = b.evalTimeout

/-- What other writers append: behind the claim's read, behind its marker (the engine's own policy
rows with them), and while each try of the commit plans. -/
structure Others where
  late : List Event := []
  opening : List Event := []
  moves : List (List Event) := []

inductive Claimed where
  | producerFailed | closed | budget | retry | committed
  | stale (why : String)
  deriving DecidableEq, Repr

def Committer.claimRequestedCardBuild (result : SpecBuildResult) (w : Others) (log : List Event) :
    Claimed × Journal Event :=
  let read : Journal Event := ⟨log, []⟩
  let state := foldedRun env log
  match result.idea with
  | none => (.producerFailed, read)
  | some idea =>
    if result.key ≠ key || !result.success || key.cardId = "" || key.generation < 0 then
      (.producerFailed, read)
    else if (requestPosition env key log).isNone then (.closed, read)
    else if key.generation ≠ state.searchEpoch then (.stale "search_epoch_rotated", read)
    else if state.halted && !c.drainsBuildsNow state then (.stale "run_is_stopping", read)
    else if c.overBudget state then (.stale "eval_budget_exhausted", read)
    else
      match c.choose log with
      | .budget => (.budget, read)
      | .stale why => (.stale why, read)
      | .reserved e =>
        let r := e.reservation
        if !sameIdea r.idea idea.toIdea then (.stale "idea_changed", read)
        else if w.late ≠ [] then (.retry, read.others w.late)
        else
          let marked := read.append
            (c.row log "node_building" (nodeBuildingData key e.kind r))
          (.committed, c.createPrecodedNode env e.kind r result w.moves (marked.others w.opening))

end Writers

section Drop
variable {env : LedgerEnv} {key : BuildRequest} {c : Committer key} {j : Journal Event}

end Drop

end Engine

end LoopLab
