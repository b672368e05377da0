import LoopLab.Lib.Front
import LoopLab.Metrics

/-!
# The non-dominated front of a pool

Which extra metrics order a pool, when one node dominates another on them and the metric of the run, and
the front that a policy reads best first.
-/

set_option autoImplicit false

namespace LoopLab.Selection.Pareto
open Lib

structure Candidate where
  id : Int
  metric : Json
  extraMetrics : Dict String Json := Table.empty
  extraMetricsProvenance : Dict String Json := Table.empty
  extraMetricsDirection : Dict String Json := Table.empty

def isUsableMetric (v : Json) : Bool := v.finiteMetric.isSome

def EXTRA_METRIC_AUTHENTICATED : List String := [EXTRA_METRIC_DECLARED, "engine"]

/-- `extra_metric_channel`, where it is one that the candidate did not author. -/
def authenticated (channels : Dict String Json) (key : String) : Bool :=
  (channels.get key).any (·.oneOf EXTRA_METRIC_AUTHENTICATED)

/-- `extra_metric_direction`; nothing where it is unknown. -/
def extraMetricDirection (directions : Dict String Json) (key : String) : Option String :=
  (directions.get key).bind fun found => found.str?.filter (DIRECTIONS.contains ·)

def axesOf (n : Candidate) : Dict String String :=
  n.extraMetrics.collect Prod.fst
    (fun (k, v) =>
      if authenticated n.extraMetricsProvenance k && isUsableMetric v then
        (extraMetricDirection n.extraMetricsDirection k).map (k, ·)
      else none)
    (by
      intro (k, v) b hb
      dsimp only at hb
      split at hb
      · obtain ⟨d, -, rfl⟩ := Option.map_eq_some_iff.mp hb
        rfl
      · cases hb)

def PRIMARY_OBJECTIVE : String := "metric"

def runDirection (direction : String) : String := if direction = "max" then "max" else "min"

/-- The axes of one more node intersected with those that all nodes before it record alike. -/
def intersect (common here : Dict String String) : Dict String String :=
  common.collect Prod.fst (fun (k, d) => if here.get k = some d then some (k, d) else none)
    (by
      intro (k, d) b hb
      dsimp only at hb
      split at hb
      · cases hb
        rfl
      · cases hb)

def paretoObjectives (direction : String) : List Candidate → Dict String String
  | [] => Table.empty
  | n :: pool =>
    Dict.update (Dict.set Table.empty PRIMARY_OBJECTIVE (runDirection direction))
      (pool.foldl (fun common m => intersect common (axesOf m)) (axesOf n))

def valueOn (n : Candidate) (key : String) : Option Rat :=
  if key = PRIMARY_OBJECTIVE then n.metric.num? else (n.extraMetrics.get key).bind (·.num?)

/-- `better` of two values -/
def exceeds (direction : String) (av bv : Rat) : Bool := if direction = "max" then bv < av else av < bv

/-- The loop of `dominates`, with whether an axis before was strictly better. -/
def dominatesFrom (a b : Candidate) : Bool → List (String × String) → Bool
  | strictly, [] => strictly
  | strictly, (key, direction) :: rest =>
    match valueOn a key, valueOn b key with
    | some av, some bv =>
      if exceeds direction bv av then false
      else dominatesFrom a b (strictly || exceeds direction av bv) rest
    | _, _ => false

def dominates (objectives : Dict String String) (a b : Candidate) : Bool := dominatesFrom a b false objectives.rows

/-- `(n.metric, n.id)` of one node is not behind that of another. -/
def precedes (a b : Candidate) : Bool :=
  let av := a.metric.num?.getD 0
  let bv := b.metric.num?.getD 0
  av < bv || av = bv && a.id ≤ b.id

def rankByMetric (direction : String) (nodes : List Candidate) : List Candidate :=
  nodes.mergeSort fun a b => if direction = "max" then precedes b a else precedes a b

def usable (nodes : List Candidate) : List Candidate := nodes.filter (isUsableMetric ·.metric)

/-- `pareto_front`; that a node is not compared with itself changes nothing, for it does not dominate itself. -/
def paretoFront (direction : String) (nodes : List Candidate) : List Candidate :=
  rankByMetric direction (front (dominates (paretoObjectives direction (usable nodes))) (usable nodes))

end LoopLab.Selection.Pareto
