import LoopLab.Json
import LoopLab.Lib.Lifecycle
import LoopLab.Lib.Sweep
import Mathlib.Algebra.Field.Rat
import Mathlib.Algebra.Order.Ring.Rat

/-!
# Occupancy of the evaluation lanes over the durable log

The rows that start, relaunch, withhold or end an evaluation are paired by lifecycle into busy stretches.
-/

set_option autoImplicit false

namespace LoopLab.Engine.EvalOccupancy
open Lib

/-- The fields `_field` reads of a row, whichever shape the row has; an absent one is null. -/
structure Row where
  ts : Json
  type : Json
  data : Json
  nodeId : Json := .null

/-- `(node_id, generation)` -/
abbrev Lifecycle := Int × Int

inductive Kind where
  /-- `_EVAL_STARTED` -/
  | started
  /-- `_RELAUNCHES` -/
  | relaunched
  /-- `_WITHHELD` -/
  | withheld
  /-- `_TERMINALS` -/
  | terminal
  deriving DecidableEq, Repr

def kindOf (type : Json) : Option Kind :=
  if type.eqStr "node_eval_started" then some .started
  else if type.eqStr "eval_canary_started" || type.eqStr "eval_invocation_claimed" then some .relaunched
  else if type.eqStr "eval_attempt_withheld" then some .withheld
  else if type.eqStr "node_evaluated" || type.eqStr "node_failed" then some .terminal
  else none

/-- `_ts`, of a finite stamp. -/
def stampOf (row : Row) : Option Rat := row.ts.toFloat

/-- The `data` of a row, or the field of the row itself where that is no object. -/
def dataOf (row : Row) : Obj :=
  match row.data with
  | .obj d => d
  | _ => [("node_id", row.nodeId)]

def usable (id : Option Int) : Option Int := id.filter (0 ≤ ·)

/-- `_lifecycle` -/
def lifecycleOf (row : Row) : Option Lifecycle := do
  let data := dataOf row
  let node ← usable (coerceNodeId data)
  if data.has "generation" then
    let generation ← usable (data.get "generation").coerceInt
    some (node, generation)
  else if data.has "attempt" then
    let generation ← usable (data.get "attempt").coerceInt
    some (node, generation)
  else some (node, 0)

/-- What a row says of which lifecycle, none for a row that either reader skips. -/
def markOf (row : Row) : Option (Lifecycle × Kind) := do
  let kind ← kindOf row.type
  let lifecycle ← lifecycleOf row
  some (lifecycle, kind)

section Segments

/-- A stretch closed at a stamp, dropped when the stamp is before its start. -/
def closed (opened : Option Rat) (stamp : Rat) : List (Rat × Rat) :=
  match opened with
  | none => []
  | some start => if start ≤ stamp then [(start, stamp)] else []

/-- `_withheld_segments`, from a state of its loop. -/
def withheldSegments (last : Rat) (opened : Option Rat) (started : Bool) :
    List (Kind × Rat) → List (Rat × Rat) × Bool
  | [] => (closed opened last, opened.isSome)
  | (.started, stamp) :: rest => withheldSegments last (some (opened.getD stamp)) true rest
  | (.relaunched, stamp) :: rest =>
    withheldSegments last (if started && opened.isNone then some stamp else opened) started rest
  | (.withheld, stamp) :: rest =>
    let (segments, stillOpen) := withheldSegments last none started rest
    (closed opened stamp ++ segments, stillOpen)
  | (.terminal, stamp) :: _ => (closed opened stamp, false)

end Segments

/-- What the walk of `withheld_lifecycles` has met. -/
structure Watch where
  latest : Dict Lifecycle Kind := Table.empty
  started : List Lifecycle := []
  ended : List Lifecycle := []

def Watch.row (w : Watch) (row : Row) : Watch :=
  match markOf row with
  | none => w
  | some (lifecycle, kind) =>
    if w.ended.contains lifecycle then w
    else match kind with
      | .terminal => { w with ended := lifecycle :: w.ended, latest := Table.erase w.latest lifecycle }
      | .started =>
        { w with started := lifecycle :: w.started, latest := w.latest.set lifecycle .started }
      | .relaunched =>
        if w.started.contains lifecycle then { w with latest := w.latest.set lifecycle .relaunched } else w
      | .withheld => { w with latest := w.latest.set lifecycle .withheld }

def withheldLifecycles (events : List Row) : List Lifecycle :=
  ((events.foldl Watch.row {}).latest.rows.filter fun r => r.2 = .withheld).map Prod.fst

/-- The dictionaries `eval_occupancy` fills, of which `setdefault` keeps the first value. -/
structure Book where
  starts : Dict Lifecycle Rat := Table.empty
  ends : Dict Lifecycle Rat := Table.empty
  sequences : Dict Lifecycle (List (Kind × Rat)) := Table.empty

def setDefault {α : Type} (d : Dict Lifecycle α) (k : Lifecycle) (v : α) : Dict Lifecycle α :=
  if (d.get k).isSome then d else d.set k v

namespace Book

def row (b : Book) (row : Row) : Book :=
  match stampOf row, markOf row with
  | some stamp, some (lifecycle, kind) =>
    { starts := if kind = .started then setDefault b.starts lifecycle stamp else b.starts
      ends := if kind = .terminal then setDefault b.ends lifecycle stamp else b.ends
      sequences := b.sequences.set lifecycle ((b.sequences.get lifecycle).getD [] ++ [(kind, stamp)]) }
  | _, _ => b

/-- The busy stretches of a started lifecycle, and whether the last is still open. -/
def stretches (b : Book) (last : Rat) (lifecycle : Lifecycle) (start : Rat) : List (Rat × Rat) × Bool :=
  let sequence := (b.sequences.get lifecycle).getD []
  if sequence.any fun r => r.1 = .withheld then withheldSegments last none false sequence
  else match b.ends.get lifecycle with
    | none => (closed (some start) last, true)
    | some finish => (closed (some start) finish, false)

/-- `sorted(starts, key=lambda key: (starts[key], key))` -/
def inOrder (b : Book) : List (Lifecycle × Rat) :=
  b.starts.rows.mergeSort fun p q =>
    p.2 < q.2 || p.2 = q.2 && (p.1.1 < q.1.1 || p.1.1 = q.1.1 && p.1.2 ≤ q.1.2)

def paired (b : Book) (last : Rat) : List (Lifecycle × List (Rat × Rat) × Bool) :=
  b.inOrder.map fun r => (r.1, b.stretches last r.1 r.2)

end Book

def pairLe (p q : Rat × Rat) : Bool := p.1 < q.1 || p.1 = q.1 && p.2 ≤ q.2

structure Report where
  runSeconds : Rat := 0
  bootstrapSeconds : Rat := 0
  spanSeconds : Rat := 0
  deadSeconds : Rat := 0
  deadShare : Rat := 0
  deadWindows : List (Rat × Rat) := []
  concurrency : Dict Int Rat := Table.empty
  intervals : List (Rat × Rat × Int) := []
  openIntervals : Nat := 0
  width : Option Int

/-- The least of a list that starts with `x`. -/
def leastOf (x : Rat) (xs : List Rat) : Rat := xs.foldl min x

def greatestOf (x : Rat) (xs : List Rat) : Rat := xs.foldl max x

def pointsOf (spans : List (Rat × Rat)) (t0 last : Rat) : List Rat :=
  ((spans.flatMap fun s => [s.1, s.2]) ++ [t0, last]).eraseDups.mergeSort (· ≤ ·)

/-- The evaluations in flight over a step, no more than the width where there is one. -/
def levelOf (width : Option Int) (spans : List (Rat × Rat)) (step : Rat × Rat) : Int :=
  let live : Int := Sweep.live spans step
  match width with
  | none => live
  | some w => min live w

def concurrencyOf (width : Option Int) (spans : List (Rat × Rat)) (points : List Rat) : Dict Int Rat :=
  (Sweep.steps points).foldl (fun d step =>
    let level := levelOf width spans step
    d.set level ((d.get level).getD 0 + (step.2 - step.1))) Table.empty

def evalOccupancy (events : List Row) (width : Option Int) : Report :=
  match events.filterMap stampOf with
  | [] => { width }
  | stamp :: stamps =>
    let t0 := leastOf stamp stamps
    let last := greatestOf stamp stamps
    let paired := (events.foldl Book.row {}).paired last
    let intervals := paired.flatMap fun p => p.2.1.map fun s => (s.1, s.2, p.1.1)
    match intervals.map fun i => (i.1, i.2.1) with
    | [] => { runSeconds := last - t0, bootstrapSeconds := last - t0, width }
    | first :: rest =>
      let spans := first :: rest
      let firstStart := leastOf first.1 (rest.map Prod.fst)
      let span := last - firstStart
      let deadWindows := (Sweep.gaps (Sweep.merge (spans.mergeSort pairLe))).map fun w => (w.1 - t0, w.2 - t0)
      let dead := Sweep.total deadWindows
      { runSeconds := last - t0
        bootstrapSeconds := firstStart - t0
        spanSeconds := span
        deadSeconds := dead
        deadShare := if 0 < span then dead / span else 0
        deadWindows
        concurrency := concurrencyOf width spans (pointsOf spans t0 last)
        intervals := intervals.map fun i => (i.1 - t0, i.2.1 - t0, i.2.2)
        openIntervals := paired.countP fun p => p.2.2
        width }

end LoopLab.Engine.EvalOccupancy
