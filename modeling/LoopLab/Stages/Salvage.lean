import LoopLab.Stages.CommandEval
import Mathlib.Data.List.SplitOn
import Mathlib.Data.List.Sort

/-!
# Recovering a number from a failed evaluation

A failed attempt may have left a number behind. The operator's reader is asked again, over what the attempt
captured and over the workdir, and a number it finds settles the node.
-/

set_option autoImplicit false

namespace LoopLab.Salvage
open Lib CommandEval

/-! ## Bytes and who wrote them -/

/-- A stage the operator declared (or the single command), a stage of the Developer's manifest, or
anything before this attempt. -/
inductive Writer where
  | operator | agent | earlier
  deriving DecidableEq, Repr

structure Written where
  text : String
  writer : Writer
  deriving DecidableEq, Repr

/-- What a path inside the workdir leads to. The size of a directory is the number of its names; a
file that will not be read has no bytes. -/
structure Artifact where
  mtime : Rat
  size : Nat
  isDir : Bool := false
  bytes : Option Written

/-- The directory the operator's readers are relative to: what a declared path leads to, unless it
leaves the directory, and the files the bounded walk meets. -/
structure Tree where
  locate : String → Option Artifact
  walk : List (String × Artifact)

/-- `_FRESH_EPS` -/
def FRESH_EPS : Rat := 2

def fileIsFresh (p : Artifact) : Option Rat → Bool
  | none => true
  | some since => since - FRESH_EPS ≤ p.mtime

/-! ## The readers -/

def METRIC_READERS : List String :=
  ["stdout_json", "stdout_regex", "file_json", "file_regex", "host_score", "adapter"]

def READERS_REQUIRING_PATH : List String := ["file_json", "file_regex"]

def specKind (spec : Obj) : String :=
  ((spec.getD "kind" (.str "stdout_json")).str?).getD "\x00unhashable-or-non-string-kind"

/-- What the readers make of a text, and when two numbers are too far apart. -/
structure Readings where
  parse : Obj → String → Option Rat
  apart : Rat → Rat → Bool

section Reading
variable (rd : Readings) (tree : Tree) (stdout : Written) (spec : Obj) (since : Option Rat)

def fileBytes (rel : String) : Option Written :=
  ((tree.locate rel).filter fun p => !p.isDir && fileIsFresh p since).bind Artifact.bytes

def readBytes : Option Written :=
  let kind := specKind spec
  if kind = "stdout_json" ∨ kind = "stdout_regex" then some stdout
  else if kind ∈ READERS_REQUIRING_PATH then
    ((spec.get "path").str?.filter (· ≠ "")).bind (fileBytes tree since)
  else if kind = "host_score" then
    ((spec.get "labels").str?.filter (· ≠ "")).bind fun _ =>
      ((spec.getD "predictions" (.str "predictions.json")).str?).bind (fileBytes tree since)
  else none

/-- `read_metric`, for the readers that run nothing. -/
def readMetric : Option Rat := (readBytes tree stdout spec since).bind fun b => rd.parse spec b.text

/-- `os.path.basename` -/
def baseName (rel : String) : List Char := (rel.toList.splitOn '/').getLastD []

/-- `Path(rel)`, as its parts. -/
def pathParts (rel : String) : List (List Char) :=
  (if rel.startsWith "/" then [['/']] else []) ++ (rel.toList.splitOn '/').filter (· ∉ [[], ['.']])

def artifactsWrittenElsewhere (rel : String) : List String :=
  if baseName rel = [] then []
  else ((tree.walk.filter fun f => baseName f.1 = baseName rel ∧ 0 < f.2.size ∧ fileIsFresh f.2 since ∧
    pathParts f.1 ≠ pathParts rel).map Prod.fst).insertionSort (· ≤ ·)

def relocated : Option (Obj × String) :=
  if specKind spec ∉ READERS_REQUIRING_PATH then none
  else match (spec.get "path").str?.filter (Py.strip · ≠ "") with
    | none => none
    | some rel =>
      match artifactsWrittenElsewhere tree since rel with
      | [found] => some (spec.set "path" (.str found), found)
      | _ => none

end Reading

/-! ## The pipeline of an attempt -/

/-- A manifest of the Developer that `materialized_stages` lets through. -/
structure Manifest where
  names : List String
  named : ∀ n ∈ names, n ≠ "" ∧ Py.strip n = n
  reserved : ∀ n ∈ names, Py.lower n ≠ "score"

/-- What an eval spec says of its stages: the list as it stands there, its names when it validates,
and whether there is a command and a host scorer. -/
structure EvalStages where
  stages : List Json := []
  valid : Option (List String) := none
  command : Bool := true
  host : Bool := false

def selfScore : Nat → String
  | 0 => "self_score"
  | k + 1 => "self_score_" ++ toString (k + 1)

def freeSelfScoreName (taken : List String) : String :=
  (((List.range (taken.length + 1)).map selfScore).find? (· ∉ taken)).getD "self_score"

def renameCandidateScore (names : List String) : List String :=
  names.foldl (fun out n => out ++
    [if Py.lower n = "score" then freeSelfScoreName (names ++ out) else n]) []

/-- `_host_scorer_stage` -/
def EvalStages.hostStage (es : EvalStages) : List (String × Writer) :=
  if es.host then [("score", .operator)] else []

def EvalStages.candidateThenHost (es : EvalStages) : List (String × Writer) :=
  (if es.command then [("self_score", .operator)] else []) ++ es.hostStage

/-- `_resolve_stages`, with whose stage each is; `none` is the single command. -/
def resolveStages (es : EvalStages) (manifest : Option Manifest) : Option (List (String × Writer)) :=
  let fallback := if es.host then some es.candidateThenHost else none
  if es.stages ≠ [] then
    match es.valid with
    | some names =>
      some ((if es.host then renameCandidateScore names else names).map (·, .operator) ++ es.hostStage)
    | none => fallback
  else
    match manifest with
    | some m =>
      some (m.names.map (·, .agent) ++
        if es.host then
          (if es.command then [(freeSelfScoreName m.names, .operator)] else []) ++ es.hostStage
        else [("score", .operator)])
    | none => fallback

/-! ## What an attempt hands on -/

structure Row where
  name : String
  status : StageStatus
  /-- `check_inconclusive` -/
  checkInconclusive : String := ""
  /-- `numeric_declared` -/
  numericDeclared : Bool := false
  /-- `expect_since` -/
  expectSince : Option Rat := none
  /-- `expect_declared` -/
  expectDeclared : List String := []

structure Account where
  condition : String
  source : String
  reader : String
  producer : String
  stage : String
  detail : Option (String × Json)

/-- A row of `violations`. -/
structure ViolationRow extends Violation where
  unverifiable : String := ""
  salvage : Option Account := none

/-- `RunResult`, as far as a failure is read. -/
structure Result where
  exitCode : Int := 0
  timedOut : Bool := false
  stalled : Bool := false
  diverged : Bool := false
  setupFailed : Bool := false
  gateReadersRefused : Bool := false
  drift : Option DriftRecord := none
  inertPath : Bool := false
  canaryExpired : Bool := false
  declaredReason : String := ""
  stdout : Written
  stages : List Row := []
  failedStage : String := ""
  metric : Option Rat := none
  violations : List ViolationRow := []
  extraMetrics : Dict String Rat := Table.empty

def failureReason (res : Result) : String :=
  if res.drift.isSome then "drift"
  else if res.inertPath then "inert_path"
  else if res.canaryExpired then "canary_timeout"
  else if res.timedOut then "timeout"
  else if res.setupFailed then "setup"
  else if res.diverged then "diverged"
  else if res.stalled then "stalled"
  else if res.declaredReason = "rules_violation" then "rules_violation"
  else if res.exitCode ≠ 0 then "crash"
  else match res.stages.getLast?.map Row.status with
    | some .needsFailed => "needs_failed"
    | some .expectFailed => "expect_failed"
    | some .checkFailed => "check_failed"
    | _ => "no_metric"

/-- `attempt_succeeded`; `objective` is the declared objective a retarget reads. -/
def attemptSucceeded (res : Result) (artifact : Bool) (objective : Option Rat) : Bool :=
  if artifact then failureReason res = "no_metric"
  else
    let measured := res.metric.isSome || (failureReason res = "no_metric" && objective.isSome)
    measured && !res.timedOut && (res.exitCode = 0 || res.stalled)

/-! ## The conditions of a salvage -/

inductive Mode where
  | off | audit | select
  deriving DecidableEq, Repr

def settleMode (mode : Json) : Mode :=
  if mode.eqStr "off" then .off else if mode.eqStr "select" then .select else .audit

def OPERATOR_PRODUCED : String := "operator_stage"
def AGENT_PRODUCED : String := "agent_stage"
def OPERATOR_PROTECTED_STAGE : String := "score"
def SALVAGE_VIOLATION : String := "metric_salvaged"

def NEVER_SALVAGED_REASONS : List String :=
  ["drift", "setup", "timeout", "diverged", "inert_path", "canary_timeout"]

def declaredName : Json → Option String
  | .obj row => some ((Obj.get row "name").str?.getD "")
  | .str name => some name
  | _ => none

def stageProducer (operatorStages : List Json) (stage : String) : String :=
  let name := Py.strip stage
  if name = "" then OPERATOR_PRODUCED
  else if name = OPERATOR_PROTECTED_STAGE then OPERATOR_PRODUCED
  else if name ∈ operatorStages.filterMap declaredName then OPERATOR_PRODUCED
  else AGENT_PRODUCED

def Result.completed (res : Result) : Bool :=
  !res.stages.isEmpty && res.metric.isSome && res.stages.all (·.status.passed)

def salvageCondition (res : Result) (reason : String) : Option String :=
  if reason ∈ NEVER_SALVAGED_REASONS ∨ res.timedOut then none
  else if res.gateReadersRefused then none
  else if res.diverged then none
  else if res.drift.isSome ∨ res.setupFailed then none
  else if res.stages.any (·.checkInconclusive ≠ "") then none
  else if res.exitCode ≠ 0 ∧ ¬res.stalled ∧ ¬res.completed then none
  else if res.completed then some "eval_failed"
  else match res.stages.getLast? with
    | none => some "eval_failed"
    | some row =>
      match row.status with
      | .checkFailed => none
      | .expectFailed => if row.numericDeclared then none else some "artifact_contract"
      | .fail => some "stage_failed"
      | .ok | .reused => some "eval_failed"
      | _ => none

structure SalvagedMetric extends Account where
  metric : Rat

def SalvagedMetric.violationRows (s : SalvagedMetric) (mode : Json) : List ViolationRow :=
  match settleMode mode with
  | .off => []
  | .select => if s.producer = OPERATOR_PRODUCED then [] else [row]
  | .audit => [row]
where row : ViolationRow :=
  { name := .str SALVAGE_VIOLATION, value := some s.metric, max := .null, min := .null
    salvage := some s.toAccount }

section Salvaging
variable (rd : Readings) (spec : EvalSpec) (operatorStages : List Json) (tree : Tree) (since : Option Rat)

def readSalvageableMetric (stdout : Written) : Option (Rat × String × String × Option (String × Json)) :=
  let kind := specKind spec.metric
  if kind = "adapter" ∨ kind ∉ METRIC_READERS then none
  else match readMetric rd tree stdout spec.metric since with
    | some value => some (value, "declared_reader", kind, none)
    | none =>
      match relocated tree spec.metric since with
      | none => none
      | some (moved, found) =>
        (readMetric rd tree stdout moved since).map fun value =>
          (value, "relocated_file", kind, some (found, spec.metric.get "path"))

def salvage (res : Result) (reason : String) (mode : Json) : Option SalvagedMetric :=
  if settleMode mode = .off then none
  else (salvageCondition res reason).bind fun condition =>
    let stage := res.failedStage
    let producer := stageProducer operatorStages stage
    match res.metric with
    | some metric =>
      some { metric, condition, source := "eval_result", reader := specKind spec.metric, producer, stage
             detail := none }
    | none =>
      (readSalvageableMetric rd spec tree since res.stdout).map fun (metric, source, reader, detail) =>
        { metric, condition, source, reader, producer, stage, detail }

def ADAPTER_CONSTRAINT : String :=
  "constraint reader is `adapter` (agent-authored code is never EXECd on a salvage)"

structure Gates where
  violations : List ViolationRow
  extraMetrics : List (String × Rat)
  drift : Option DriftRecord

def crossReading (stdout : Written) (cross : Obj) : Option Rat :=
  if isAdapter cross then none else readMetric rd tree stdout cross since

def salvageGates (metric : Rat) (stdout : Written) : Gates where
  violations :=
    (spec.constraints.filter fun c => specKind c = "adapter").map (fun c =>
      { toViolation := violationOf c none, unverifiable := ADAPTER_CONSTRAINT }) ++
    (spec.constraints.filter fun c => specKind c ≠ "adapter").filterMap fun c =>
      let value := readMetric rd tree stdout c since
      if unmet c value then some { toViolation := violationOf c value } else none
  extraMetrics := spec.metrics.rows.filterMap fun row =>
    if specKind row.2 = "adapter" then none else (readMetric rd tree stdout row.2 since).map (row.1, ·)
  drift :=
    if spec.enforceDrift then
      spec.crossCheck.bind fun cross =>
        let seen := crossReading rd tree since stdout cross
        let corroborated := match seen with | none => false | some x => !rd.apart metric x
        if corroborated then none else some ⟨metric, seen⟩
    else none

end Salvaging

/-! ## The re-check of a repaired contract -/

structure Fix where
  changed : List String := []
  deleted : List String := []
  code : String := ""

structure ChainStage where
  name : String
  files : List String := []

def DECLARATION_MANIFEST : String := "looplab_stages.json"

def dropDotSlash : List Char → List Char
  | '.' :: '/' :: rest => dropDotSlash rest
  | cs => cs

def normalizeDeclaredPath (path : String) : List Char :=
  let rel := dropDotSlash ((Py.strip path).toList.map fun c => if c = '\\' then '/' else c)
  if rel = [] ∨ '\x00' ∈ rel then rel
  else if rel.head? = some '/' ∨ rel[1]? = some ':' ∨ ['.', '.'] ∈ rel.splitOn '/' then rel
  else ['/'].intercalate ((rel.splitOn '/').filter (· ∉ [[], ['.']]))

def declarationOnlyRepair (fix : Fix) : Bool :=
  fix.deleted.isEmpty && Py.strip fix.code = "" && !fix.changed.isEmpty &&
    fix.changed.all (normalizeDeclaredPath · = DECLARATION_MANIFEST.toList)

section Recheck
variable (stages : List Row) (stage : String) (chain : List ChainStage) (fix : Fix) (corrected : Tree)

def declaredPipelineCompleted : Bool :=
  let names := chain.map ChainStage.name
  let status (n : String) := (stages.reverse.find? (·.name = n)).map Row.status
  names.Nodup && !names.contains "" && names.getLast? = some stage &&
    names.dropLast.all (fun n => (status n).any StageStatus.passed) && status stage = some .expectFailed

def recheckableSalvage (s : SalvagedMetric) : Bool :=
  s.condition = "artifact_contract" && s.source = "declared_reader" && s.producer = OPERATOR_PRODUCED

def recheckFloor : Option Rat :=
  if stage = "" then none
  else ((stages.find? (·.name = stage)).filter (·.status = .expectFailed)).bind fun row =>
    row.expectSince.filter (0 < ·)

def recheckableExpect : List String :=
  if stage = "" then []
  else match chain.find? (·.name = stage) with
    | none => []
    | some c =>
      let files := c.files.filter (Py.strip · ≠ "")
      let written := fix.changed.map normalizeDeclaredPath
      if files.any (normalizeDeclaredPath · ∈ written) then [] else files

def declarationActuallyCorrected (files : List String) : Bool :=
  match stages.find? (·.name = stage) with
  | none => false
  | some row =>
    let was := row.expectDeclared.map normalizeDeclaredPath
    let now := files.map normalizeDeclaredPath
    stage ≠ "" && !files.isEmpty && !was.isEmpty && !(was.all (· ∈ now) && now.all (· ∈ was))

/-- `verify_stage_artifacts` finds no problem. -/
def artifactsHold (files : List String) (since : Rat) : Bool :=
  files.all fun rel => (corrected.locate rel).any fun p => 0 < p.size && fileIsFresh p (some since)

/-- `_recheck_repaired_contract`; answers the corrected files. -/
def recheckRepairedContract (s : SalvagedMetric) : Option (List String) :=
  if !declaredPipelineCompleted stages stage chain then none
  else if !recheckableSalvage s then none
  else if !declarationOnlyRepair fix then none
  else (recheckFloor stages stage).bind fun since =>
    let files := recheckableExpect stage chain fix
    if files.isEmpty then none
    else if !declarationActuallyCorrected stages stage files then none
    else if artifactsHold corrected files since then some files else none

end Recheck

/-! ## The attempt -/

inductive ActivationVerdict where
  | block | warn | settle
  deriving DecidableEq, Repr

/-- One attempt of a node, from its result on: the declarations it is read by, what the activation
check would say of it, and what the cause fix comes to. -/
structure Attempt where
  spec : EvalSpec
  es : EvalStages
  manifest : Option Manifest
  mode : Json
  res : Result
  tree : Tree
  /-- `_t0` -/
  started : Rat
  objective : Option Rat := none
  artifact : Bool := false
  canaryFailed : Bool := false
  watchdogReason : Option String := none
  activationOff : Bool := false
  declaredMarkers : Bool := false
  verdict : ActivationVerdict := .settle
  fix : Fix := {}
  chain : List ChainStage := []
  corrected : Tree
  failureText : String := ""
  subjectRequired : Bool := false
  subjectBound : Option Bool := none

def Attempt.blocked (a : Attempt) : Prop :=
  a.activationOff = false ∧ a.declaredMarkers = true ∧ a.verdict = .block

instance (a : Attempt) : Decidable a.blocked := by unfold Attempt.blocked; infer_instance

/-- `_eval_settle_outcome`: whether the attempt succeeded, and its result. -/
def Attempt.settleOutcome (a : Attempt) : Bool × Result :=
  let res := if a.artifact then { a.res with metric := none } else a.res
  let ok := attemptSucceeded res a.artifact a.objective
  if ok ∧ a.blocked then (false, { res with inertPath := true, metric := none }) else (ok, res)

inductive Provenance where
  | salvaged (account : Account) (causeRepaired : Bool) (error : String)
  | declarationRepaired (stage reader producer : String) (expectFiles : List String) (error : String)

/-- The `node_evaluated` row. -/
structure Terminal where
  metric : Rat
  violations : List ViolationRow
  extraMetrics : Dict String Rat
  provenance : Provenance

/-- `unbound_subject_violation_rows` -/
def Attempt.unboundSubjectRows (a : Attempt) (metric : Rat) : List ViolationRow :=
  if a.subjectRequired ∧ a.subjectBound = some false then
    [{ name := .str SALVAGE_VIOLATION, value := some metric, max := .null, min := .null }]
  else []

/-- `evaluated_terminal` -/
def Attempt.terminal (a : Attempt) (res : Result) (s : SalvagedMetric) (gates : Gates) : Terminal :=
  let own := res.violations ++ gates.violations
  let unbound := a.unboundSubjectRows s.metric
  let extraMetrics := gates.extraMetrics.foldl (fun d k => d.set k.1 k.2) res.extraMetrics
  match recheckRepairedContract res.stages res.failedStage a.chain a.fix a.corrected s with
  | some files =>
    { metric := s.metric, violations := own ++ unbound, extraMetrics
      provenance := .declarationRepaired s.stage s.reader s.producer (files.take 12) (Py.cut 600 a.failureText) }
  | none =>
    { metric := s.metric, violations := own ++ s.violationRows a.mode ++ unbound, extraMetrics
      provenance := .salvaged s.toAccount (!a.fix.changed.isEmpty) (Py.cut 600 a.failureText) }

variable (rd : Readings)

/-- `_eval_salvage`, for an attempt that did not succeed; `none` is a node that goes on to repair. -/
def Attempt.evalSalvage (a : Attempt) : Option Terminal :=
  let (ok, res) := a.settleOutcome
  let reason := a.watchdogReason.getD (failureReason res)
  if ok then none
  else if a.canaryFailed then none
  else if a.artifact then none
  else (salvage rd a.spec a.es.stages a.tree (some a.started) res reason a.mode).bind fun s =>
    let gates := salvageGates rd a.spec a.tree (some a.started) s.metric res.stdout
    if gates.drift.isSome then none else some (a.terminal res s gates)

end LoopLab.Salvage
