import LoopLab.Fold.Board
import LoopLab.Lib.Latch
import LoopLab.Log.Writer

/-!
# The engine's own drops

Before it retires a card the engine reads the raw rows that name it: a drop stands until a reopen follows it, where
the last drop was the operator's.
-/

set_option autoImplicit false

namespace LoopLab.Engine
open Lib

/-- The author `_drop_author` reads off a raw row, before it is made a string. -/
def rawDropAuthor (d : Obj) : Json := ((d.get "dropped_by").orElse (d.get "by")).orElse (.str "engine")

section Scan
variable (env : LedgerEnv)

/-- `_canonical_card_id`, the mirror of the fold's `_card_replay_id` -/
def canonicalCardId (v : Json) : Option String := cardReplayId env.toEnv v

def names (cardId : String) (e : Event) : Bool := canonicalCardId env (e.data.get "id") = some cardId

def isDropRow (e : Event) : Bool := e.type = "card_auto_dropped" || e.type = "card_dropped"

/-- The drop that stands in the scan of `_card_auto_drop_row`. -/
def scanRow (cardId : String) (standing : Option Event) (e : Event) : Option Event :=
  if !names env cardId e then standing
  else if isDropRow e then some e
  else if e.type = "card_reopened" then
    standing.filter fun prior => !(rawDropAuthor prior.data).eqStr "operator"
  else standing

def cardAutoDropRow (events : List Event) (cardId : Option String) (reason droppedBy : String) :
    Option (String × Obj) :=
  match cardId.filter (· ≠ "") with
  | none => none
  | some id =>
    match events.foldl (scanRow env id) none with
    | some _ => none
    | none => some ("card_auto_dropped",
        [("id", .str id), ("reason", .str reason), ("dropped_by", .str droppedBy)])

def dropLatch (cardId : String) : Latch Event where
  sets e := names env cardId e && isDropRow e
  releases prior e := names env cardId e && e.type = "card_reopened" &&
    (rawDropAuthor prior.data).eqStr "operator"

theorem scanRow_eq_step (cardId : String) : scanRow env cardId = (dropLatch env cardId).step := by
  funext standing e
  have hkeep : standing.filter (fun _ => true) = standing := by cases standing <;> rfl
  unfold scanRow Latch.step dropLatch
  cases hname : names env cardId e with
  | false => simp [hname, hkeep]
  | true =>
    cases hdrop : isDropRow e with
    | true => simp [hname, hdrop]
    | false =>
      by_cases htype : e.type = "card_reopened"
      · simp [hname, hdrop, htype]
      · simp [hname, hdrop, htype, hkeep]

theorem cardAutoDropRow_eq_none (events : List Event) {id : String} (reason droppedBy : String)
    (h : id ≠ "") :
    cardAutoDropRow env events (some id) reason droppedBy = none ↔
      ¬ (dropLatch env id).AtRest events := by
  rw [← Latch.held_none_iff]
  unfold cardAutoDropRow Latch.held
  have hid : (some id).filter (· ≠ "") = some id := by simp [h]
  rw [hid]
  dsimp only
  rw [scanRow_eq_step]
  cases events.foldl (dropLatch env id).step none with
  | none => simp
  | some e => simp

end Scan

/-- `retry_tail_cas` with a plan of one row at most; `moves` has what others append while it plans. -/
def retryTailCas (plan : List Event → Option (String × Obj)) (m : Moment)
    (ids : Option String × Option String) :
    Nat → List (List Event) → List Event → Option (List Event)
  | 0, _, _ => none
  | attempts + 1, moves, log =>
    match plan log with
    | none => some log
    | some row =>
      match moves with
      | (e :: rows) :: moves => retryTailCas plan m ids attempts moves (log ++ e :: rows)
      | _ => some (log ++ numbered m ids (lastSeq log) 0 [row])

/-- `_drop_card_once`; no log is left where the retries run out and it raises. -/
def dropCardOnce (env : LedgerEnv) (cardId : Option String) (reason droppedBy : String) (m : Moment)
    (ids : Option String × Option String) (moves : List (List Event)) (log : List Event) :
    Option (List Event) :=
  match cardId.filter (· ≠ "") with
  | none => some log
  | some id =>
    retryTailCas (fun events => cardAutoDropRow env events (some id) reason droppedBy) m ids 64 moves log

end LoopLab.Engine
