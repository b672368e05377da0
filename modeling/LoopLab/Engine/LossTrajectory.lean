import LoopLab.Trace.Redact
import Mathlib.Algebra.Order.Ring.Rat
import Mathlib.Algebra.Order.AbsoluteValue.Basic

/-!
# The trajectory of a loss

Each look at a training log is reduced to a window, and the windows of one log to a trajectory: whether the loss
moves, and whether its values are a curve at all.
-/

set_option autoImplicit false

namespace LoopLab.Engine.LossTrajectory
open Lib Lib.Pattern Redact

/-! ## Values in a text -/

def digit : Pattern := char fun c => (Py.digit c).isSome

def sign : Pattern := opt (char (Redact.among ['-', '+']))

def infinite : Pattern := all [sign, anyCase "inf", opt (anyCase "inity")]

def notANumber : Pattern := all [sign, anyCase "nan"]

/-- `_LOSS_VALUE` -/
def lossValue : Pattern :=
  oneOf [all [sign, oneOf [all [plus digit, opt (all [lit ".", many digit])], all [lit ".", plus digit]],
      opt (all [char (Redact.among ['e', 'E']), sign, plus digit])], notANumber, infinite]

/-- A key that nothing stands before, its separator and a value. -/
def keyed (key : String) (value : Pattern) : Pattern :=
  let quote := opt (char (Redact.among ['\'', '"']))
  all [notBehind fun c => isAlnum (foldCase c) || Redact.among ['_'] c, quote, anyCase key, quote, spaces, char (Redact.among [':', '=']),
    spaces, group 1 value]

/-- `_LOSS_POINT_RE` -/
def lossPoint : Pattern := keyed "loss" lossValue

/-- `_GRAD_NORM_NONFINITE_RE` -/
def gradNormNonfinite : Pattern := keyed "grad_norm" (oneOf [notANumber, infinite])

/-- The letters of a value are those that `float` reads. -/
def spelled (value : List Char) : Bool := value.all fun c => foldCase c = c || isUpper c

def parseLossPoints (text : List Char) : List Rat × Nat :=
  let values := ((lossPoint.finditer text).map fun m => m.get 1).filter spelled
  let finite := values.filterMap fun v => Py.parseFloat (String.ofList v)
  (finite, values.length - finite.length + if gradNormNonfinite.found text then 1 else 0)

/-! ## Windows -/

def median (values : List Rat) : Rat :=
  let ordered := values.mergeSort fun a b => a ≤ b
  let mid := ordered.length / 2
  if ordered.length % 2 = 1 then ordered.getD mid 0 else (ordered.getD (mid - 1) 0 + ordered.getD mid 0) / 2

/-- The numbers of a window that has some. -/
structure Readings where
  median : Rat
  masd : Rat
  count : Nat
  first : Rat
  last : Rat
  minimum : Rat
  maximum : Rat
  deriving DecidableEq

structure LossWindow where
  numbers : Option Readings
  nonfinite : Nat
  deriving DecidableEq

def readingsOf (first : Rat) (rest : List Rat) : Readings :=
  let diffs := List.zipWith (fun a b => |b - a|) (first :: rest) rest
  { median := LossTrajectory.median (first :: rest)
    masd := if diffs = [] then 0 else LossTrajectory.median diffs
    count := rest.length + 1
    first := first
    last := rest.getLastD first
    minimum := rest.foldl min first
    maximum := rest.foldl max first }

def summarizeLossWindow (text : List Char) : Option LossWindow :=
  match parseLossPoints text with
  | ([], 0) => none
  | ([], nonfinite) => some ⟨none, nonfinite⟩
  | (first :: rest, nonfinite) => some ⟨some (readingsOf first rest), nonfinite⟩

/-! ## The trajectory -/

def TRAJECTORY_EXPLOSION_RATIO : Rat := 100
def TRAJECTORY_MIN_RELATIVE_DROP : Rat := 1 / 1000
def TRAJECTORY_MIN_ABSOLUTE_DROP : Rat := 1 / 1000000

inductive Direction
  | descending
  | rising
  | flat
  | unknown
  deriving DecidableEq

structure Trajectory where
  windows : Nat := 0
  points : Nat := 0
  first : Option Rat := none
  last : Option Rat := none
  minimum : Option Rat := none
  maximum : Option Rat := none
  noise : Option Rat := none
  net : Option Rat := none
  direction : Direction := .unknown
  anomaly : String := ""
  deriving DecidableEq

def anyNonfinite (rows : List LossWindow) : Bool := rows.any fun w => w.nonfinite ≠ 0

/-- Some maximum is far beyond the opening scale. -/
def exploded (opening : Rat) (numeric : List Readings) : Bool :=
  let scale := if 0 < |opening| then |opening| else 1
  numeric.any fun r => TRAJECTORY_EXPLOSION_RATIO * scale ≤ |r.maximum|

def anomalyOf (rows : List LossWindow) (numeric : List Readings) : String :=
  if anyNonfinite rows then "non-finite loss or grad_norm"
  else
    match numeric with
    | [] => ""
    | opening :: _ => if exploded opening.median numeric then "loss exploded far beyond its opening scale" else ""

/-- The net movement that counts. -/
def floorOf (opening : Rat) (numeric : List Readings) : Rat :=
  max (max (median (numeric.map Readings.masd)) (|opening| * TRAJECTORY_MIN_RELATIVE_DROP)) TRAJECTORY_MIN_ABSOLUTE_DROP

def directionOf (net floor : Rat) : Direction :=
  if floor < net then .descending else if net < -floor then .rising else .flat

def numericOf (rows : List LossWindow) : List Readings := rows.filterMap LossWindow.numbers

def summarizeTrajectory (rows : List LossWindow) : Trajectory :=
  let numeric := numericOf rows
  let anomaly := anomalyOf rows numeric
  let points := (numeric.map Readings.count).foldl (· + ·) 0
  match numeric with
  | [] => { windows := rows.length, points, anomaly }
  | opening :: rest =>
    let last := rest.getLastD opening
    let common : Trajectory :=
      { windows := rows.length
        points
        anomaly
        first := some opening.first
        last := some last.last
        minimum := some ((rest.map Readings.minimum).foldl min opening.minimum)
        maximum := some ((rest.map Readings.maximum).foldl max opening.maximum)
        noise := some (median (numeric.map Readings.masd)) }
    if rest = [] then common
    else
      let net := opening.median - last.median
      { common with net := some net, direction := directionOf net (floorOf opening.median numeric) }

/-! ## The tracker -/

def MAX_TRAJECTORY_WINDOWS : Int := 512

/-- `LossTrajectoryTracker` -/
structure Tracker where
  maxlen : Nat
  windows : List LossWindow

def Tracker.new (maxWindows : Int) : Tracker := ⟨(max 2 maxWindows).toNat, []⟩

def Tracker.reset (t : Tracker) : Tracker := { t with windows := [] }

/-- `observe`: a full deque drops its oldest window. -/
def Tracker.observe (t : Tracker) (text : List Char) : Tracker :=
  match summarizeLossWindow text with
  | none => t
  | some w =>
    { t with windows := (t.windows ++ [w]).drop ((t.windows ++ [w]).length - t.maxlen) }

def Tracker.summary (t : Tracker) : Trajectory := summarizeTrajectory t.windows

end LoopLab.Engine.LossTrajectory
