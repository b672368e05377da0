import LoopLab.Metrics

/-!
# Running an evaluation

An evaluation is one command, or a list of stages of which the leading ones may be reused.
-/

set_option autoImplicit false

namespace LoopLab.CommandEval
open Lib

/-! ## What is declared -/

structure Stage where
  name : Option String := none
  command : List String := []
  /-- `HOST_STAGE_KEY`: the operator's own scorer. -/
  host : Bool := false
  needs : List String := []
  files : List String := []
  numeric : Bool := false
  assertion : String := ""
  check : Bool := false

def Stage.label (stg : Stage) (i : Nat) : String := (stg.name.filter (· ≠ "")).getD s!"stage{i}"

structure EvalSpec where
  metric : Obj
  metrics : Dict String Obj := Table.empty
  constraints : List Obj := []
  crossCheck : Option Obj := none
  enforceDrift : Bool := false
  selfMetric : Option Obj := none

/-! ## What is found -/

inductive Check where
  | passes
  | inconclusive (text : String)
  | fails (text : String)
  | ceiling

/-- What one stage comes to. The contract of its inputs and its environment are looked at before the
command is run, those of its outputs behind it. -/
structure Outcome where
  subjectProblem : Option String := none
  inputProblem : Option String := none
  envProblem : Option String := none
  exitCode : Int := 0
  timedOut : Bool := false
  out : String := ""
  err : String := ""
  stalled : Bool := false
  diverged : Bool := false
  artifactProblem : Option String := none
  numericDefects : List String := []
  check : Check := .passes

/-- What the readers find in a captured output and the workdir, none of it older than the floor. -/
structure Readers where
  readMetric : String → Obj → Option Rat → Option Rat
  /-- `abs(primary - cross) > tol * (1.0 + abs(cross))` -/
  apart : Rat → Rat → Bool
  jsonLineExtras : String → String → List (String × Rat)
  jsonLineTrials : String → Option Json
  jsonLineFingerprint : String → Option String
  declaredFailureReason : String → Option String
  evalStarted : Rat

/-! ## Results -/

inductive StageStatus where
  | reused | ok | fail | timeout | needsFailed | envUnsupported | expectFailed | checkFailed
  deriving DecidableEq, Repr

def StageStatus.passed (s : StageStatus) : Bool := s = .ok || s = .reused

structure StageRow where
  stage : Nat
  name : String
  status : StageStatus
  exitCode : Int := 0
  concern : Option String := none
  checkInconclusive : Option String := none

structure Violation where
  name : Json
  value : Option Rat
  max : Json
  min : Json

structure DriftRecord where
  primary : Rat
  cross : Option Rat

/-- What `captured_result_fields` answers. -/
structure Captured where
  metric : Option Rat := none
  drift : Option DriftRecord := none
  extraMetrics : Option (List (String × Rat)) := none
  extraMetricsProvenance : Option (List (String × String)) := none
  extraMetricsDirection : Option (List (String × String)) := none
  violations : Option (List Violation) := none
  trials : Option Json := none
  evalFingerprint : Option String := none

structure RunResult extends Captured where
  exitCode : Int
  stdout : String
  stderr : String
  timedOut : Bool
  stages : Option (List StageRow) := none
  failedStage : Option String := none
  stalled : Bool := false
  diverged : Bool := false
  gateReadersRefused : Bool := false
  selfMetric : Option Rat := none
  declaredReason : Option String := none

inductive Slot where
  | primary
  | crossCheck (reader : Obj)
  | extra (name : String)
  | constraint (c : Obj)
  | own

structure Evaluated where
  result : RunResult
  asked : List Slot := []

structure EvalRun where
  rc : Int := 0
  out : String := ""
  err : String := ""
  timedOut : Bool := false
  stalled : Bool := false
  diverged : Bool := false
  rows : Option (List StageRow) := none
  selfOut : String := ""
  hosted : Bool := false

def EvalRun.salvageableStall (run : EvalRun) : Bool := run.stalled && !run.diverged

/-! ## Reading a captured output -/

/-- `x or None` of a list -/
def orNone {α : Type} (xs : List α) : Option (List α) := if xs.isEmpty then none else some xs

section Reading
variable (rd : Readers) (spec : EvalSpec) (out : String)

def reusedStageCount (stages : List Stage) (startStage : Option String) : Nat :=
  match startStage.filter (· ≠ "") with
  | none => 0
  | some name => (stages.findIdx? fun stg => stg.name.getD "None" = name).getD 0

def attemptFreshnessFloor (stages : List Stage) (startStage : Option String) : Option Rat :=
  if reusedStageCount stages startStage = 0 then some rd.evalStarted else none

/-- `_drift` -/
def drifts (primary : Rat) : Option Rat → Bool
  | none => true
  | some cross => rd.apart primary cross

def unmet (c : Obj) : Option Rat → Bool
  | none => true
  | some v => (c.get "max").num?.any (· < v) || (c.get "min").num?.any (v < ·)

def violationOf (c : Obj) (value : Option Rat) : Violation where
  name := c.getD "name" (.str "constraint")
  value
  max := c.get "max"
  min := c.get "min"

def violations (since : Option Rat) : List Violation :=
  spec.constraints.filterMap fun c =>
    let value := rd.readMetric out c since
    if unmet c value then some (violationOf c value) else none

def isAdapter (reader : Obj) : Bool := (reader.get "kind").eqStr "adapter"

/-- `_gate_reader_refusal`, for the slot it names. -/
def gateReaderRefusal : Option String :=
  let refused (slot : String) := "eval." ++ slot ++ " declares an `adapter` reader. A gate reader must " ++
    "be a declarative built-in, never agent-authored code — an adapter gate defeats the scorer freeze. " ++
    "This node is failed rather than scored; fix the task spec and resume."
  if spec.metrics.rows.any (isAdapter ·.2) then some (refused "metrics")
  else if spec.constraints.any isAdapter then some (refused "constraints")
  else if spec.enforceDrift && spec.crossCheck.any isAdapter then some (refused "cross_check")
  else none

def declaredExtras (timedOut : Bool) (since : Option Rat) : List (String × Rat) :=
  if timedOut then []
  else spec.metrics.rows.filterMap fun row => (rd.readMetric out row.2 since).map (row.1, ·)

def autoExtras (timedOut : Bool) : List (String × Rat) :=
  if !timedOut && (spec.metric.getD "kind" (.str "stdout_json")).eqStr "stdout_json"
  then rd.jsonLineExtras out (((spec.metric.getD "key" (.str "metric")).str?).getD "metric") else []

def named {α β : Type} (k : String × α) (xs : List (String × β)) : Bool := xs.any (·.1 = k.1)

def declaredDirection (k : String) : Option String :=
  ((spec.metrics.get k).bind fun reader => (reader.get "direction").str?).filter (DIRECTIONS.contains ·)

def askedCrossCheck (m : Option Rat) : Option Obj :=
  if spec.enforceDrift && m.isSome then spec.crossCheck else none

def corroborate (m : Option Rat) (since : Option Rat) : Option Rat × Option DriftRecord :=
  match m, askedCrossCheck spec m with
  | some primary, some cross =>
    let seen := rd.readMetric out cross since
    if drifts rd primary seen then (none, some ⟨primary, seen⟩) else (m, none)
  | _, _ => (m, none)

def capturedResultFields (m : Option Rat) (timedOut : Bool) (since : Option Rat) : Captured :=
  let (m, drift) := corroborate rd spec out m since
  let declared := declaredExtras rd spec out timedOut since
  let auto := autoExtras rd spec out timedOut
  { metric := m
    drift
    extraMetrics := orNone (declared ++ auto.filter (!named · declared))
    extraMetricsProvenance := orNone
      (auto.map (fun k => (k.1, if named k declared then "declared" else "auto")) ++
        (declared.filter (!named · auto)).map fun k => (k.1, "declared"))
    extraMetricsDirection := orNone (declared.filterMap fun k => (declaredDirection spec k.1).map (k.1, ·))
    violations := if !timedOut && m.isSome then orNone (violations rd spec out since) else none
    trials := if timedOut then none else rd.jsonLineTrials out
    evalFingerprint := if timedOut then none else rd.jsonLineFingerprint out }

/-- The readers `captured_result_fields` asks. -/
def askedReaders (m : Option Rat) (timedOut : Bool) (since : Option Rat) : List Slot :=
  (askedCrossCheck spec m).toList.map .crossCheck ++
    (if timedOut then [] else spec.metrics.rows.map fun row => .extra row.1) ++
    (if !timedOut && (corroborate rd spec out m since).1.isSome then spec.constraints.map .constraint else [])

end Reading

section Paths
variable (rd : Readers) (spec : EvalSpec)

def readResult (run : EvalRun) (since : Option Rat) : Evaluated :=
  let m := if run.timedOut then none else rd.readMetric run.out spec.metric (some rd.evalStarted)
  let primary := if run.timedOut then [] else [Slot.primary]
  match gateReaderRefusal spec with
  | some refusal =>
    { result :=
        { exitCode := run.rc, stdout := run.out, stderr := run.err ++ "\n" ++ refusal
          timedOut := run.timedOut, gateReadersRefused := true
          trials := if run.timedOut then none else rd.jsonLineTrials run.out
          stages := run.rows, stalled := run.salvageableStall, diverged := run.diverged }
      asked := primary }
  | none =>
    let selfReader := spec.selfMetric.getD spec.metric
    let own := run.hosted && run.selfOut ≠ "" && !run.timedOut
    { result :=
        { capturedResultFields rd spec run.out m run.timedOut since with
          exitCode := run.rc, stdout := run.out, stderr := run.err, timedOut := run.timedOut
          stages := run.rows, stalled := run.salvageableStall, diverged := run.diverged
          selfMetric := if own then rd.readMetric run.selfOut selfReader (some rd.evalStarted) else none
          declaredReason := rd.declaredFailureReason run.out }
      asked := primary ++ askedReaders rd spec run.out m run.timedOut since ++
        (if own then [.own] else []) }

/-! ## The stages -/

inductive StageEnd where
  | next (run : EvalRun)
  | early (e : Evaluated)
  | ceiling

/-- The result of a pipeline that ended before its command was run, or behind it. -/
def EvalRun.ended (run : EvalRun) (row : StageRow) (exitCode : Int) (stderr : String)
    (reason : Option String) : Evaluated where
  result :=
    { exitCode, stdout := run.out, stderr, timedOut := false
      stages := some (run.rows.getD [] ++ [row]), failedStage := some row.name, declaredReason := reason }

/-- The row and the message of what stops a stage before its command is run. -/
def refusedBefore (i : Nat) (stg : Stage) (o : Outcome) : Option (StageRow × Int × String) :=
  let name := stg.label i
  match o.subjectProblem.filter fun _ => stg.host with
  | some problem =>
    some ({ stage := i, name, status := .needsFailed, concern := some (Py.cut 700 problem) }, 0,
      "stage '" ++ name ++ "' failed its declared input contract: " ++ problem)
  | none =>
    match o.inputProblem.filter fun _ => stg.needs ≠ [] with
    | some problem =>
      some ({ stage := i, name, status := .needsFailed, concern := some (Py.cut 900 problem) }, 0,
        "stage '" ++ name ++ "' failed its declared input contract: " ++ problem)
    | none =>
      o.envProblem.map fun problem =>
        ({ stage := i, name, status := .envUnsupported, concern := some problem }, 2, problem)

def numericConcern (stg : Stage) (defects : List String) : String :=
  if stg.host then
    "the OPERATOR'S host scorer REFUSED this candidate: " ++ String.intercalate "; " defects ++
      ". The scorer and its contract are protected and are not the fault: they measured the candidate's " ++
      "OUTPUT. Its printed row in score.log says what was wrong (quality, order, speed) — repair the " ++
      "candidate's code so that row passes."
  else
    "exited 0 but did NOT satisfy its declared numeric contract: " ++ String.intercalate "; " defects ++
      ". The relation is the declarer's own bound on what this stage produces — fix the stage or the " ++
      "declaration, do not delete the declaration to make this pass."

/-- The message of a broken numeric contract; the scorer's own account stands last. -/
def numericMessage (name : String) (stg : Stage) (o : Outcome) : String :=
  let defects := String.intercalate "; " o.numericDefects
  let own := Py.strip o.err
  if stg.host then
    "the host scorer REFUSED this candidate (" ++ defects ++ "). Do NOT edit the score stage: it is the " ++
      "operator's, protected. Repair the candidate's own code." ++
      (if own = "" then "" else "\nThe scorer said:\n" ++ String.ofList (own.toList.drop (own.length - 1200)))
  else "stage '" ++ name ++ "' failed its declared numeric contract: " ++ defects

def refusedBehind (i : Nat) (stg : Stage) (o : Outcome) : Option (StageRow × String) :=
  let name := stg.label i
  match o.artifactProblem.filter fun _ => stg.files ≠ [] with
  | some problem =>
    some ({ stage := i, name, status := .expectFailed, concern := some (Py.cut 700 problem) },
      "stage '" ++ name ++ "' failed its declared artifact contract: " ++ problem)
  | none =>
    if stg.numeric && !o.numericDefects.isEmpty then
      some ({ stage := i, name, status := .expectFailed
              concern := some (Py.cut 700 (numericConcern stg o.numericDefects)) },
        numericMessage name stg o)
    else
      match o.check with
      | .fails text =>
        if stg.check || stg.assertion ≠ "" then
          some ({ stage := i, name, status := .checkFailed, concern := some (Py.cut 300 text) },
            "stage '" ++ name ++ "' failed verification: " ++ text)
        else none
      | _ => none

def hitsCeiling (stg : Stage) (o : Outcome) : Bool :=
  (stg.check || stg.assertion ≠ "") && (match o.check with | .ceiling => true | _ => false)

def keptDoubt (stg : Stage) (o : Outcome) : Option String :=
  match o.check with
  | .inconclusive text => if stg.check || stg.assertion ≠ "" then some (Py.cut 300 text) else none
  | _ => none

def runStage (last : Bool) (i : Nat) (stg : Stage) (o : Outcome) (run : EvalRun) : StageEnd :=
  let name := stg.label i
  let rows := run.rows.getD []
  match refusedBefore i stg o with
  | some (row, exitCode, message) => .early (run.ended row exitCode message none)
  | none =>
    let ran : EvalRun :=
      { rc := o.exitCode, out := o.out, err := o.err, timedOut := o.timedOut, stalled := o.stalled
        diverged := o.diverged, rows := some rows
        selfOut := if stg.host then run.out else run.selfOut, hosted := stg.host || run.hosted }
    if o.timedOut || o.exitCode ≠ 0 then
      let row : StageRow :=
        { stage := i, name, status := if o.timedOut then .timeout else .fail, exitCode := o.exitCode }
      -- the number is kept of a last stage that hung behind it
      let salvages := last && !o.timedOut
      .early
        { result :=
            { exitCode := o.exitCode, stdout := o.out, stderr := "stage '" ++ name ++ "' failed:\n" ++ o.err
              metric := if salvages then rd.readMetric o.out spec.metric (some rd.evalStarted) else none
              timedOut := o.timedOut, stages := some (rows ++ [row]), failedStage := some name
              stalled := ran.salvageableStall, diverged := o.diverged
              declaredReason := rd.declaredFailureReason o.out }
          asked := if salvages then [.primary] else [] }
    else
      match refusedBehind i stg o with
      | some (row, message) => .early (ran.ended row 0 message (rd.declaredFailureReason o.out))
      | none =>
        if hitsCeiling stg o then .ceiling
        else
          .next { ran with
            rows := some (rows ++ [{ stage := i, name, status := .ok, exitCode := o.exitCode
                                     checkInconclusive := keptDoubt stg o }]) }

/-- The loop of `_run_stages`, from the stage at `i` on. -/
def runStages (count reused : Nat) (outcomes : Nat → Outcome) : List Stage → Nat → EvalRun → StageEnd
  | [], _, run => .next run
  | stg :: rest, i, run =>
    if i < reused then
      runStages count reused outcomes rest (i + 1)
        { run with rows := some (run.rows.getD [] ++ [{ stage := i, name := stg.label i, status := .reused }]) }
    else if stg.command = [] then runStages count reused outcomes rest (i + 1) run
    else
      match runStage rd spec (i + 1 = count) i stg (outcomes i) run with
      | .next run => runStages count reused outcomes rest (i + 1) run
      | ending => ending

/-- `run_command_eval` behind its setup; `single` is what the one command comes to where no stages are
declared. Nothing is returned where a stage check hits the spend ceiling. -/
def runCommandEval (stages : List Stage) (startStage : Option String) (outcomes : Nat → Outcome)
    (single : EvalRun) : Option Evaluated :=
  let since := attemptFreshnessFloor rd stages startStage
  if stages = [] then
    some (readResult rd spec { single with rows := none, selfOut := "", hosted := false } since)
  else
    match runStages rd spec stages.length (reusedStageCount stages startStage) outcomes stages 0
      { rows := some [] } with
    | .next run => some (readResult rd spec run since)
    | .early e => some e
    | .ceiling => none

end Paths

end LoopLab.CommandEval
