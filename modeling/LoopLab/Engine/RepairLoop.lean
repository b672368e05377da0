import LoopLab.Engine.EvalSeconds
import LoopLab.Strip
import Mathlib.Data.Finset.Insert

/-!
# The repair loop of one lifecycle

What the log remembers of a repair chain, and the loop that reads it.
-/

set_option autoImplicit false

/-!
## What the log remembers of a repair chain

A repair chain survives its process in the rows it wrote: each inline repair, each re-run of an earlier stage, each
full re-train.
-/

namespace LoopLab.Engine.Repairs
open EvalSeconds

/-- `str(v)` of a value that is no string, `repr(s)`, and the window of a failure text the judge is
shown. -/
structure Texts where
  render : Json → String
  quoted : String → String
  tail : String → String

/-- `str(v)` -/
def Texts.str (texts : Texts) : Json → String
  | .str s => s
  | v => texts.render v

/-- `_UNLIMITED_REPAIR_CEILING` -/
def unlimitedRepairCeiling : Nat := 50

def effectiveRepairCap (inlineRepairAttempts : Nat) : Nat :=
  if inlineRepairAttempts = 0 then unlimitedRepairCeiling else inlineRepairAttempts

def repairAttemptsLeft (attempt : Int) (cap : Nat) : Int :=
  max 0 (min cap unlimitedRepairCeiling - attempt)

def repairFloorStop (attempt : Int) (operatorCap ceiling : Nat) : Option String :=
  if 0 < operatorCap ∧ (operatorCap : Int) ≤ attempt then
    some s!"inline repair has spent its hard limit of {operatorCap} attempt(s) on this node (inline_repair_attempts)"
  else if (ceiling : Int) ≤ attempt then
    let why := if operatorCap = 0 then
        "this run sets no operator cap (inline_repair_attempts is 0, the default since the repair bound became a judgment), so the ceiling is what stopped it"
      else
        s!"this run's inline_repair_attempts is {operatorCap}, which is ABOVE that ceiling and can therefore never be reached — the ceiling is what stopped it"
    some s!"inline repair has spent the engine's absolute ceiling of {ceiling} attempt(s) on this node — {why}"
  else none

/-! ## The rows of the chain -/

def isSalvage (d : Obj) : Bool := (d.get "triage_action").eqStr salvageCauseTriageAction

def isRow (type : String) (nodeId : Int) (generation : Nat) (e : Event) : Bool :=
  e.type == type && durableRowBelongs e.data nodeId generation

def payloads (type : String) (events : List Event) (nodeId : Int) (generation : Nat) : List Obj :=
  (events.filter (isRow type nodeId generation)).map (·.data)

/-- A counter the rows carry: the largest they name, each row without a number counting one more. -/
def durableCount (key : String) (rows : List Obj) : Int :=
  rows.foldl (fun count d =>
    match (d.get key).int? with
    | some n => max count n
    | none => count + 1) 0

def durableDepRounds (events : List Event) (nodeId : Int) (generation : Nat) : Int :=
  durableCount "round" (payloads "deps_installed" events nodeId generation)

def durableFullRetrains (events : List Event) (nodeId : Int) (generation : Nat) : Int :=
  durableCount "spent" (payloads "full_retrain_charged" events nodeId generation)

def acceptedStage (str : Json → String) (d : Obj) : Option String :=
  if (d.get "accepted").isTrue && (d.get "stage").truthy then some (str (d.get "stage")) else none

def durableRollbacks (str : Json → String) (events : List Event) (nodeId : Int)
    (generation : Nat) : Finset String :=
  (payloads "stage_rollback" events nodeId generation).foldl (fun out d =>
    match acceptedStage str d with
    | some stage => insert stage out
    | none => out) ∅

/-- `FIRST_HOST_REFUSAL_DEFERRAL` -/
def firstHostRefusalDeferral : String := "first_host_refusal_buys_one_repair"

def coerceJudgeDeferred : Json → Option Json
  | .obj fields =>
    if (Obj.get fields "action").eqStr "reject_idea" && (Obj.get fields "rule").eqStr firstHostRefusalDeferral
    then some (.obj [("action", .str "reject_idea"), ("rule", .str firstHostRefusalDeferral)])
    else none
  | _ => none

/-- `REPAIR_VERDICTS` -/
def repairVerdicts : List String := ["verified", "inert", "unmet", "unstated"]

def ledgerFix (str : Json → String) (rationale : Json) : String := ((str rationale).take 200).toString

def items : Json → List Json
  | .arr xs => xs
  | _ => []

def repairLedgerRow (texts : Texts) (d : Obj) (attempts : Int) : Obj :=
  [("attempt", .int ((d.get "attempt").int?.getD attempts)),
   ("error", .str (texts.tail (texts.str (d.getD "error_in" (.str ""))))),
   ("fix", .str (ledgerFix texts.str (d.getD "rationale" (.str "")))),
   ("stages_passed", d.get "stages_passed")] ++
  (if d.has "engine_reason" then
    [("engine_reason", .str (texts.str ((d.get "engine_reason").orElse (.str ""))))] else []) ++
  (if d.has "reason" then
    [("reason", .str (texts.str ((d.get "reason").orElse (.str ""))))] else []) ++
  (if d.has "changed" then [("changed", .arr (items (d.get "changed")))] else []) ++
  (match d.get "failure_signature" with
    | .obj sig =>
      if (Obj.get sig "digest").truthy then
        [("failure_signature", .obj (["exception", "message", "where", "stage", "digest"].map
          fun k => (k, .str (texts.str ((Obj.get sig k).orElse (.str ""))))))]
      else []
    | _ => []) ++
  (match coerceJudgeDeferred (d.get "judge_deferred") with
    | some deferred => [("judge_deferred", deferred)]
    | none => []) ++
  (match (d.get "verified").str? with
    | some verdict =>
      if verdict ∈ repairVerdicts then
        [("verified", .str verdict),
         ("unmet", .arr (((items (d.get "unmet")).map fun u => .str (texts.str u)).take 12))]
      else []
    | none => []) ++
  (if (d.get "budget_exhausted").truthy then
    [("budget_exhausted", .str ((texts.str (d.get "budget_exhausted")).take 32).toString)] else []) ++
  (match (items (d.get "param_overrides")).filterMap Json.obj? with
    | [] => []
    | overrides =>
      [("param_overrides", .arr ((overrides.take 12).map fun o =>
        .obj [("param", .str (texts.str ((o.get "param").orElse (.str "")))),
          ("declared", o.get "declared"), ("code", o.get "code"),
          ("file", .str (texts.str ((o.get "file").orElse (.str "")))), ("line", o.get "line")]))])

/-- What `_durable_repair_ledger` returns. -/
structure Ledger where
  attempts : Int
  rows : List Obj
  unparseable : Int

def Ledger.empty : Ledger := ⟨0, [], 0⟩

/-- One `node_repaired` row of the lifecycle. -/
def Ledger.add (texts : Texts) (ledger : Ledger) (d : Obj) : Ledger :=
  let attempts :=
    if isSalvage d then ledger.attempts
    else match (d.get "attempt").int? with
      | some n => max ledger.attempts n
      | none => ledger.attempts + 1
  { attempts := attempts
    rows := ledger.rows ++ [repairLedgerRow texts d attempts]
    unparseable := max ledger.unparseable ((d.get "unparseable_repairs").int?.getD 0) }

def durableRepairLedger (texts : Texts) (events : List Event) (nodeId : Int) (generation : Nat) :
    Ledger :=
  (payloads "node_repaired" events nodeId generation).foldl (Ledger.add texts) .empty

/-! ## The floors that read the ledger -/

def inertStreak (rows : List Obj) : Nat :=
  (rows.reverse.takeWhile fun row => (row.get "verified").eqStr "inert").length

/-- `INERT_REPAIR_LIMIT` -/
def inertRepairLimit : Nat := 2

def digestOf : Json → Option Json
  | .obj sig => if (Obj.get sig "digest").truthy then some (Obj.get sig "digest") else none
  | _ => none

def repeatedFailureStreak (signature : Json) (rows : List Obj) : Nat :=
  match digestOf signature with
  | none => 0
  | some digest =>
    1 + (rows.reverse.takeWhile fun row =>
      match row.get "failure_signature" with
      | .obj sig => (Obj.get sig "digest").pyEq digest
      | _ => false).length

def signatureText (str : Json → String) : Json → String
  | .obj sig =>
    let column := fun key lead trail =>
      if (Obj.get sig key).truthy then lead ++ str (Obj.get sig key) ++ trail else ""
    str ((Obj.get sig "exception").orElse (.str "")) ++ column "message" ": " "" ++
      column "where" " at " "" ++ column "stage" " (stage " ")"
  | _ => ""

/-- `REPEATED_FAILURE_REASONS` -/
def repeatedFailureReasons : List String := ["crash"]

def repeatedFailureStop (str : Json → String) (signature : Json) (rows : List Obj) (limit : Nat)
    (reason : String) : Option String :=
  if limit = 0 ∨ reason ∉ repeatedFailureReasons then none
  else
    let n := repeatedFailureStreak signature rows
    if n < max 2 limit then none
    else
      let text := ((signatureText str signature).take 150).toString
      some s!"repeated failure: {text} — identical after {n - 1} repair(s) in a row, so in-node repair stopped (inline_repair_same_failure_limit={limit}); a new attempt needs a different approach, not this fix again"

end LoopLab.Engine.Repairs

/-!
## The repair loop of one lifecycle

A process seeds its chain from the log, evaluates, and after each failure decides whether to buy a repair, which
earlier stage to go back to, and whether the repair throws a completed training away.
-/

namespace LoopLab.Engine.Repairs
open EvalSeconds

structure RepairSettings where
  inlineRepair : Bool := true
  inlineRepairAttempts : Nat
  inlineRepairReasons : List String := ["crash"]
  inlineRepairRetrainCap : Nat
  inlineRepairSameFailureLimit : Nat := 0

/-! ## Whether a repair is bought -/

structure Failure where
  reason : String
  /-- `failure_signature`, computed only with the floor on. -/
  signature : Json
  /-- What `repair_redone_work_stop` answers. -/
  redoneWork : Option String := none
  developerRepairs : Bool := true
  hasArtifact : Bool := true

structure RepairGateContext where
  inlineRepair : Bool
  reason : String
  repairReasons : List String
  floorStop : Option String
  developerRepairs : Bool
  hasArtifact : Bool

/-- `repair_gate`: whether a repair is bought, and what the terminal says when it is not. -/
def repairGate (ctx : RepairGateContext) : Bool × Option (String × String) :=
  if ctx.inlineRepair && ctx.repairReasons.contains ctx.reason && ctx.floorStop.isNone &&
      ctx.developerRepairs && ctx.hasArtifact then (true, none)
  else
    match ctx.floorStop with
    | some stop => if ctx.inlineRepair then (false, some ("abandon", stop)) else (false, none)
    | none => (false, none)

/-- The artifact a repair shipped: it does not parse, or it holds no code that can run. -/
inductive Defect where
  | unparseable
  | noCode
  deriving DecidableEq, Repr

/-- `_UNPARSEABLE_REPAIR_LIMIT` -/
def unparseableRepairLimit : Int := 3

/-- `_repair_provider_failure`: whether the call failed, and the unparseable answers so far. -/
def repairProviderFailure (developerError : Bool) (defect : Option Defect) (unparseable : Int) :
    Bool × Int :=
  let unparseable := if defect = some .unparseable then unparseable + 1 else unparseable
  (developerError || defect = some .noCode || decide (unparseableRepairLimit ≤ unparseable),
    unparseable)

structure Columns where
  code : Json := .str ""
  files : Json := .obj []
  deleted : Json := .arr []
  errorIn : String
  failureSignature : Option Json := none
  judgeDeferred : Option Json := none
  rationale : String
  changed : List String
  stagesPassed : Nat
  verified : String
  unmet : List String := []
  budgetExhausted : String := ""
  paramOverrides : List Json := []
  reason : String
  engineReason : String
  evalSeconds : Rat := 0

def repairPayload (nodeId : Int) (generation : Nat) (attempt unparseable : Int) (c : Columns) :
    Obj :=
  [("node_id", .int nodeId), ("generation", .int generation), ("attempt", .int attempt),
   ("code", c.code), ("files", c.files), ("deleted", c.deleted), ("error_in", .str c.errorIn),
   ("triage_action", .str "repair")] ++
  (c.failureSignature.toList.map fun sig => ("failure_signature", sig)) ++
  (c.judgeDeferred.toList.map fun row => ("judge_deferred", row)) ++
  [("rationale", .str c.rationale), ("changed", .arr (c.changed.map .str)),
   ("stages_passed", .int c.stagesPassed), ("verified", .str c.verified),
   ("unmet", .arr ((c.unmet.take 12).map .str))] ++
  (if c.budgetExhausted = "" then [] else [("budget_exhausted", .str c.budgetExhausted)]) ++
  (if c.paramOverrides.isEmpty then [] else
    [("param_overrides", .arr (c.paramOverrides.take 12))]) ++
  [("reason", .str c.reason), ("engine_reason", .str c.engineReason),
   ("eval_seconds", .float c.evalSeconds), ("unparseable_repairs", .int unparseable)]

/-- What the row of a salvaged metric's fix records; `code` only when the fix moved it. -/
structure SalvageColumns where
  files : Json := .obj []
  deleted : Json := .arr []
  errorIn : String
  rationale : String
  changed : List String := []
  salvagedMetric : Json
  code : Option Json := none

/-- The row of `_commit_salvaged_cause_fix`. -/
def salvagePayload (nodeId : Int) (generation : Nat) (attempt : Int) (c : SalvageColumns) : Obj :=
  [("node_id", .int nodeId), ("generation", .int generation), ("attempt", .int attempt),
   ("files", c.files), ("deleted", c.deleted), ("error_in", .str c.errorIn),
   ("triage_action", .str salvageCauseTriageAction), ("rationale", .str c.rationale),
   ("changed", .arr (c.changed.map .str)), ("stages_passed", .null),
   ("salvaged_metric", c.salvagedMetric)] ++ c.code.toList.map fun code => ("code", code)

structure Reply where
  stuck : Bool := false
  developerError : Bool := false
  defect : Option Defect := none
  columns : Columns

/-! ## Which stage the next evaluation starts from -/

/-- A repair that blames an earlier stage, and the pipeline it is asked about. -/
structure Placement where
  stages : List String
  failedStage : String
  /-- `last_rollback_stage` as the Developer set it. -/
  rollbackStage : String := ""
  changed : List String := []
  defaultCwd : Bool := true
  reachable : Option (List String) := none
  protectedNames : List String := []
  /-- `_safe_reuse_start` for the failed stage and for the suspect. -/
  reuseStart : Option String := none
  reuseToSuspect : Option String := none
  canaryFailed : Bool := false
  recheckSettles : Bool := false
  /-- `len(res.stages)` -/
  stagesRun : Nat := 0

def dropDotSlash (f : String) : String :=
  match f.toList with
  | '.' :: '/' :: rest => String.ofList rest
  | _ => f

/-- `_rollback_start`: the stage to re-run, or why not. -/
def rollbackStart (quoted : String → String) (p : Placement) (ask : String)
    (rolledTo : Finset String) : Option String × Option String :=
  let suspect := Py.strip ask
  let failed := p.failedStage
  let refuse := fun text => (none, some (s!"cannot roll back to stage {quoted suspect}" ++ text))
  if suspect = "" then (none, none)
  else if p.stages.isEmpty then
    refuse ": this node has no declared stage pipeline — the operator's command runs as ONE step, so there is no earlier stage to re-run. Fix the code that command runs."
  else if suspect ∉ p.stages then
    let names := ", ".intercalate p.stages
    refuse s!": this node's pipeline has no such stage. Its stages, in order, are: {names}."
  else if ¬ (failed ∈ p.stages ∧ p.stages.idxOf suspect < p.stages.idxOf failed) then
    refuse s!": it is not EARLIER than the stage that failed ({quoted failed}). Rolling back means re-running a stage that ALREADY COMPLETED because you believe its output is what broke the later one; re-running the failing stage itself is what the ordinary repair already does."
  else if suspect ∈ rolledTo then
    refuse s!" again: this node has already re-run it once on that same suspicion and the failure came back. Re-running an expensive stage a second time on the same guess is not a new hypothesis — either fix the failing stage {quoted failed} directly, name a DIFFERENT earlier stage, or say you no longer know what to change."
  else if !p.defaultCwd then (some suspect, none)
  else
    let changed := p.changed.map dropDotSlash
    match p.reachable with
    | none => (some suspect, none)
    | some reachable =>
      if changed.any (reachable.contains ·) then (some suspect, none)
      else
        match ((reachable.filter (p.protectedNames.contains ·)).mergeSort (fun a b => decide (a ≤ b))).head? with
        | some script =>
          refuse s!": it runs {script}, which is PROTECTED — the operator owns that file and no edit you make can change it, so re-running the stage would produce exactly what it produced before. This is NOT something you can fix. If that stage's output really is wrong, the operator has to change {script} or unprotect it; meanwhile fix what you CAN reach, or report that you cannot."
        | none =>
          if changed.any (fun c => !c.endsWith ".py") then (some suspect, none)
          else
            refuse ": this repair changed nothing that stage reads or runs, so re-running it would produce byte-identical output and cost its full runtime for nothing. To roll back to a stage you must also CHANGE it — edit the script it runs (or something that script imports) in the SAME repair that names it."

def repairForcesFullRetrain (p : Placement) (nextStart : Option String) (rolledBack : Bool) : Bool :=
  rolledBack || (p.failedStage != "" && decide (1 < p.stagesRun) && nextStart.isNone)

def rollbackPayload (nodeId : Int) (generation : Nat) (attempt : Int) (p : Placement) (ask : String)
    (answer : Option String × Option String) (nextStart : Option String) : Obj :=
  [("node_id", .int nodeId), ("generation", .int generation), ("attempt", .int attempt),
   ("stage", .str ask), ("failed_stage", .str p.failedStage), ("accepted", .bool answer.1.isSome),
   ("refusal", .str ((answer.2.getD "").take 300).toString)] ++
  if answer.1.isSome then [("start", .str (nextStart.getD ""))] else []

/-! ## The loop -/

inductive Phase where
  | evaluating
  | repaired
  | placed (forcesRetrain : Bool)
  | settled
  deriving DecidableEq, Repr

/-- The loop-carried counters of `EvalAttempt`. -/
structure Chain where
  attempt : Int
  repairLog : List Obj
  unparseableRepairs : Int
  rolledTo : Finset String
  fullRetrains : Int
  phase : Phase

/-- `_eval_seed_ledgers` -/
def seedLedgers (texts : Texts) (events : List Event) (nodeId : Int) (generation : Nat) : Chain :=
  let ledger := durableRepairLedger texts events nodeId generation
  { attempt := ledger.attempts
    repairLog := ledger.rows
    unparseableRepairs := ledger.unparseable
    rolledTo := durableRollbacks texts.str events nodeId generation
    fullRetrains := durableFullRetrains events nodeId generation
    phase := .evaluating }

def floorStop (texts : Texts) (settings : RepairSettings) (c : Chain) (f : Failure) :
    Option String :=
  match repairFloorStop c.attempt settings.inlineRepairAttempts unlimitedRepairCeiling with
  | some stop => some stop
  | none =>
    let redone :=
      if settings.inlineRepair && settings.inlineRepairRetrainCap != 0 then f.redoneWork else none
    match redone with
    | some stop => some stop
    | none =>
      if settings.inlineRepair && settings.inlineRepairSameFailureLimit != 0 &&
          settings.inlineRepairReasons.contains f.reason then
        repeatedFailureStop texts.str f.signature c.repairLog settings.inlineRepairSameFailureLimit
          f.reason
      else none

structure State where
  log : List Event
  chain : Option Chain

inductive Op where
  | bystander (e : Event)
  | resume
  | die
  | settle
  | salvage (columns : SalvageColumns)
  /-- The attempt failed: `lets` is whether the judge and the critic let a repair be bought. -/
  | decide (f : Failure) (lets : Bool) (reply : Reply)
  | place (p : Placement)
  | charge

def rowEvent (type : String) (data : Obj) : Event where
  type := type
  data := data

section Loop
variable (texts : Texts) (settings : RepairSettings) (nodeId : Int) (generation : Nat)

def readsRow (e : Event) : Bool :=
  isRow "node_repaired" nodeId generation e || isRow "stage_rollback" nodeId generation e ||
    isRow "full_retrain_charged" nodeId generation e

def decideRepair (s : State) (c : Chain) (f : Failure) (lets : Bool) (reply : Reply) : State :=
  let gate := repairGate
    { inlineRepair := settings.inlineRepair
      reason := f.reason
      repairReasons := settings.inlineRepairReasons
      floorStop := floorStop texts settings c f
      developerRepairs := f.developerRepairs
      hasArtifact := f.hasArtifact }
  if !gate.1 || !lets || reply.stuck then { s with chain := some { c with phase := .settled } }
  else
    let (failed, unparseable) :=
      repairProviderFailure reply.developerError reply.defect c.unparseableRepairs
    if failed then
      { s with chain := some { c with unparseableRepairs := unparseable, phase := .settled } }
    else
      let payload := repairPayload nodeId generation (c.attempt + 1) unparseable reply.columns
      { log := s.log ++ [rowEvent "node_repaired" payload]
        chain := some { c with
          attempt := c.attempt + 1
          unparseableRepairs := unparseable
          repairLog := c.repairLog ++ [repairLedgerRow texts payload (c.attempt + 1)]
          phase := .repaired } }

def placeRepair (s : State) (c : Chain) (p : Placement) : State :=
  if inertRepairLimit ≤ inertStreak c.repairLog || p.recheckSettles then
    { s with chain := some { c with phase := .settled } }
  else
    let ask := Py.strip p.rollbackStage
    if ask = "" then
      let forces := repairForcesFullRetrain p (if p.canaryFailed then none else p.reuseStart) false
      { s with chain := some { c with phase := .placed forces } }
    else
      let answer := rollbackStart texts.quoted p ask c.rolledTo
      let nextStart := match answer.1 with
        | some suspect => if p.reuseToSuspect = some suspect then some suspect else none
        | none => p.reuseStart
      let forces := repairForcesFullRetrain p (if p.canaryFailed then none else nextStart)
        (answer.1.isSome && !p.canaryFailed)
      { log := s.log ++ [rowEvent "stage_rollback"
          (rollbackPayload nodeId generation c.attempt p ask answer nextStart)]
        chain := some { c with
          rolledTo := match answer.1 with
            | some suspect => insert suspect c.rolledTo
            | none => c.rolledTo
          phase := .placed forces } }

def chargeRetrain (s : State) (c : Chain) : State :=
  if settings.inlineRepairRetrainCap ≠ 0 ∧ (settings.inlineRepairRetrainCap : Int) ≤ c.fullRetrains
  then { s with chain := some { c with phase := .settled } }
  else
    { log := s.log ++ [rowEvent "full_retrain_charged"
        [("node_id", .int nodeId), ("generation", .int generation),
         ("spent", .int (c.fullRetrains + 1)), ("attempt", .int c.attempt)]]
      chain := some { c with fullRetrains := c.fullRetrains + 1, phase := .evaluating } }

def step (s : State) : Op → Option State
  | .bystander e => if readsRow nodeId generation e then none else some { s with log := s.log ++ [e] }
  | .resume =>
    match s.chain with
    | none => some { s with chain := some (seedLedgers texts s.log nodeId generation) }
    | some _ => none
  | .die => some { s with chain := none }
  | .settle =>
    match s.chain with
    | some c =>
      if c.phase = .evaluating then some { s with chain := some { c with phase := .settled } }
      else none
    | none => none
  | .salvage columns =>
    match s.chain with
    | some c =>
      if c.phase ≠ .evaluating then none
      else if (payloads "node_repaired" s.log nodeId generation).any isSalvage then
        some { s with chain := some { c with phase := .settled } }
      else
        some { log := s.log ++ [rowEvent "node_repaired"
                (salvagePayload nodeId generation c.attempt columns)]
               chain := some { c with phase := .settled } }
    | none => none
  | .decide f lets reply =>
    match s.chain with
    | some c =>
      if c.phase = .evaluating then some (decideRepair texts settings nodeId generation s c f lets reply)
      else none
    | none => none
  | .place p =>
    match s.chain with
    | some c => if c.phase = .repaired then some (placeRepair texts nodeId generation s c p) else none
    | none => none
  | .charge =>
    match s.chain with
    | some c =>
      match c.phase with
      | .placed true => some (chargeRetrain settings nodeId generation s c)
      | .placed false => some { s with chain := some { c with phase := .evaluating } }
      | _ => none
    | none => none

end Loop

end LoopLab.Engine.Repairs
