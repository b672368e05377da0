import LoopLab.Json
import LoopLab.Lib.Table
import Mathlib.Algebra.Order.Ring.Rat

/-!
# The leash of an evaluation

The budget of an evaluation is the largest wall clock that its operator declared.
-/

set_option autoImplicit false

namespace LoopLab.Leash
open Lib

def LAUNCH_TIMEOUT_DEFAULT_S : Rat := 86400

/-- `launch_timeout_ceiling()`: it is never below its default. -/
structure LaunchCeiling where
  seconds : Rat
  long : LAUNCH_TIMEOUT_DEFAULT_S ≤ seconds

def finiteTimeout (ceiling : LaunchCeiling) (value : Option Json) (default : Rat) : Rat :=
  max 0 (min ((value.bind Json.toFloat).getD default) ceiling.seconds)

/-- A profile; `none` where it declares no timeout. -/
structure Profile where
  timeout : Option Json
  overrides : List String

/-- A stage of a chain; `none` where its timeout is absent or `None`. -/
structure LeashedStage where
  name : String
  timeout : Option Json

/-- A spec; `none` where its timeout is absent or `None`. -/
structure EvalSpec where
  command : List String
  timeout : Option Json
  profiles : Dict String Profile
  stages : List LeashedStage

def budgetDeclarations (spec : EvalSpec) : List Json :=
  spec.timeout.toList ++ spec.profiles.rows.filterMap fun row => row.2.timeout

def evalSpecTimeBudget (ceiling : LaunchCeiling) : Option EvalSpec → Option Rat
  | none => none
  | some spec =>
    let declared := budgetDeclarations spec
    let vals := if declared.isEmpty then [Json.float 600] else declared
    let cand := (vals.map fun v => finiteTimeout ceiling (some v) 0).foldl max 0
    if 0 < cand then some cand else none

def leashedTimeout (declared : Json) (budget override : Option Rat) : Json :=
  match override with
  | none => declared
  | some n =>
    match declared with
    | .bool b => .bool b
    | declared =>
      match declared.toFloat with
      | none => declared
      | some value => if budget.any (· ≤ value) then .float n else .float (min value n)

def leashedStages (stages : List LeashedStage) (budget override : Option Rat) : List LeashedStage :=
  if override = none then stages
  else
    stages.map fun stage =>
      { stage with timeout := stage.timeout.map fun declared => leashedTimeout declared budget override }

def Profile.leashed (budget override : Option Rat) (p : Profile) : Profile :=
  { p with timeout := p.timeout.map fun declared => leashedTimeout declared budget override }

/-- `with_eval_timeout` on an active spec and an override. -/
def EvalSpec.leashed (ceiling : LaunchCeiling) (es : EvalSpec) (n : Rat) : EvalSpec :=
  let budget := evalSpecTimeBudget ceiling (some es)
  { es with
    timeout := some (es.timeout.elim (.float n) fun declared => leashedTimeout declared budget (some n))
    profiles := es.profiles.mapRows (fun row => (row.1, row.2.leashed budget (some n))) fun _ => rfl
    stages := leashedStages es.stages budget (some n) }

def withEvalTimeout (ceiling : LaunchCeiling) (spec : Option EvalSpec) (override : Option Rat) : Option EvalSpec :=
  match spec, override with
  | some es, some n => some (es.leashed ceiling n)
  | spec, _ => spec

def resolvedProfile (spec : EvalSpec) (profile : Option String) : Option Profile :=
  spec.profiles.get (if profile.getD "" = "" then "smoke" else profile.getD "")

/-- The timeout of `build_command`. -/
def commandTimeout (ceiling : LaunchCeiling) (spec : EvalSpec) (profile : Option String) : Rat :=
  finiteTimeout ceiling (((resolvedProfile spec profile).bind Profile.timeout).or spec.timeout) 600

/-- The timeout that a stage runs under in `_run_stages`. -/
def stageTimeout (ceiling : LaunchCeiling) (spec : EvalSpec) (profile : Option String) (stage : LeashedStage) : Rat :=
  finiteTimeout ceiling stage.timeout (commandTimeout ceiling spec profile)

end LoopLab.Leash
