import LoopLab.Engine.Curation

/-!
# Finalize stewards

One attempt of a steward as a machine: what it holds the decision lock for, where it reads and appends, where it
makes its claim and where it asks the provider.
-/

set_option autoImplicit false

namespace LoopLab.Engine
open Lib Redact

/-- An exception, by the name of its class; `stop` is the run's spend ceiling. -/
structure Failure where
  errorType : String
  stop : Bool := false

def CONCEPT_CURATION_INPUT_SCHEMA : String := "finalize-concept-curation/v3"

def CLAIM_CURATION_INPUT_SCHEMA : String := "finalize-claim-curation/v3"

def TASK_FACETS_INPUT_SCHEMA : String := "finalize-task-facets/v2"

structure StewardPlan where
  inputSchema : String
  inputDigest : HexDigest
  curationKey : String
  hasInput : Bool
  fastPaths : List (Except Failure (Option (Outcome × Proposals)))
  propose : Except Failure (Outcome × Proposals)

inductive StewardInput where
  | concept (snapshot : Except Failure (HexDigest × Bool)) (answer : Except Failure (List Json × List Json × List Json))
  | claim (snapshot : Except Failure (HexDigest × Bool)) (answer : Except Failure (List Json))
  | facets (governed : Except Failure (Option Obj)) (goalIsEmpty : Bool) (digest : HexDigest)
    (answer : Except Failure Obj)

def StewardInput.kind : StewardInput → StewardKind
  | concept _ _ => .concept
  | claim _ _ => .claim
  | facets _ _ _ _ => .facets

structure Attempt where
  source : RunSource
  input : StewardInput
  enabled : Bool := true
  autoRequested : Bool := false
  client : Option String
  text : TextEnv

/-- `plan`: a shortcut or what is to be done. -/
inductive Planned where
  | settled (outcome : Outcome)
  | plan (plan : StewardPlan)

namespace Attempt
variable (env : CurationEnv) (a : Attempt)

def kind : StewardKind := a.input.kind

/-- `store_concept_curation`, `store_claim_curation` and `store_task_facets`, up to their plans -/
def planned : Except Failure Planned :=
  match a.input with
  | .concept snapshot answer => do
    let (digest, hasInput) ← snapshot
    pure (.plan
      { inputSchema := CONCEPT_CURATION_INPUT_SCHEMA
        inputDigest := digest
        curationKey := portfolioCurationKey .concept digest.text
        hasInput
        fastPaths := []
        propose := answer.map fun (merges, splits, purges) =>
          (if merges.isEmpty && splits.isEmpty && purges.isEmpty then .empty else .proposed,
            .concept merges splits purges) })
  | .claim snapshot answer => do
    let (digest, hasInput) ← snapshot
    pure (.plan
      { inputSchema := CLAIM_CURATION_INPUT_SCHEMA
        inputDigest := digest
        curationKey := portfolioCurationKey .claim digest.text
        hasInput
        fastPaths := []
        propose := answer.map fun decisions =>
          (if decisions.isEmpty then .empty else .proposed, .claim decisions) })
  | .facets governed goalIsEmpty digest answer =>
    let tid := a.source.taskId
    if tid = "" then .ok (.settled .empty)
    else .ok (.plan
      { inputSchema := TASK_FACETS_INPUT_SCHEMA
        inputDigest := digest
        curationKey := facetsCurationKey env tid
        hasInput := true
        fastPaths :=
          [governed.map fun current => current.map fun facets => (.alreadyGoverned, .facets tid facets),
            .ok (if goalIsEmpty then some (.empty, .facets tid []) else none)]
        propose := answer.map fun facets => (if facets.isEmpty then .empty else .proposed, .facets tid facets) })

def plan? : Option StewardPlan :=
  match a.planned env with
  | .ok (.plan plan) => if a.enabled then some plan else none
  | _ => none

def key? : Option (StewardKind × String) := (a.plan? env).map fun plan => (a.kind, plan.curationKey)

def emptyProposals : Proposals :=
  match a.kind with
  | .concept => .concept [] [] []
  | .claim => .claim []
  | .facets => .facets a.source.taskId []

@[irreducible] def recordedModel (client : Option String) : String :=
  let model := recorded a.text 200 (if client.getD "" = "" then "unknown" else client.getD "")
  if model = "" then "unknown" else model

def curationProvenance (inputDigest inputSchema : String) (client : Option String) : Provenance where
  inputDigest := inputDigest
  inputSchema := inputSchema
  model := a.recordedModel client
  parser := FINALIZE_STEWARD_PARSER

def row (curationKey : String) (provenance : Provenance) (outcome : Outcome) (proposals : Proposals)
    (errorType : Option String := none) : CurationRow where
  curationKey := curationKey
  sourceKey := curationSourceKey env a.source
  source := a.source
  provenance := provenance
  outcome := outcome
  autoRequested := a.autoRequested
  proposals := proposals
  errorType := errorType

def planRow (plan : StewardPlan) (client : Option String) (outcome : Outcome) (proposals : Proposals)
    (errorType : Option String := none) : CurationRow :=
  a.row env plan.curationKey (a.curationProvenance plan.inputDigest.text plan.inputSchema client) outcome proposals
    errorType

def diagnosticRow (errorType : String) : CurationRow :=
  a.row env (diagnosticCurationKey env a.kind a.source)
    (a.curationProvenance "" (FINALIZE_DIAGNOSTIC_SCHEMAS a.kind) none) .error a.emptyProposals (some errorType)

/-- The terminal row of a claim whose attempt was lost, under the claim's own identity. -/
def recoveredRow (claim : Claim) : CurationRow where
  curationKey := claim.curationKey
  sourceKey := curationSourceKey env claim.source
  source := claim.source
  provenance := claim.provenance
  outcome := .priorAttemptIncompleteNotReplayed
  autoRequested := claim.autoRequested
  proposals := a.emptyProposals
  ambiguity := some "provider_outcome_unknown"

/-- The payload of `_write_curation_claim`. -/
def claimOf (plan : StewardPlan) : Claim where
  kind := a.kind
  curationKey := plan.curationKey
  sourceKey := curationSourceKey env a.source
  source := a.source
  autoRequested := a.autoRequested
  provenance := a.curationProvenance plan.inputDigest.text plan.inputSchema a.client

end Attempt

/-! ## Steps -/

/-- The ledgers, and the claim files by the name their path is made of: a key, or the id of a run in the first
version. -/
structure Memory where
  ledgers : StewardKind → List LedgerRow
  files : StewardKind × String → Option ClaimFile

/-- The tests of `_curation_attempt_already_resolved_locked`, in their order. -/
inductive Check where
  | curated | legacyRow | legacyClaim | claim
  deriving DecidableEq, Repr

inductive Result where
  | disabled | settled (outcome : Outcome) | alreadyResolved | error | stopped
  deriving DecidableEq, Repr

/-- Where an attempt is. From `resolving` to `failing` it holds the decision lock. -/
inductive Phase where
  | start
  | resolving (again : Bool) (check : Check)
  | recovering (claim : Claim)
  | deciding
  | settling (row : CurationRow)
  | creating
  | writing
  | asking
  | answering (row : CurationRow)
  | failing (failure : Failure)
  | diagnosing (errorType : String)
  | done (result : Result)
  | dead

def Phase.locked : Phase → Bool
  | .start | .diagnosing _ | .done _ | .dead => false
  | _ => true

section Next
variable (env : CurationEnv) (a : Attempt) (m : Memory)

/-- An exception that leaves the lock: the spend ceiling goes on up, any other one is logged. -/
def raised (failure : Failure) : Phase :=
  if failure.stop then .done .stopped else .diagnosing failure.errorType

def unreadableLedger : Phase := .diagnosing "GovernanceLedgerUnavailable"

def resolvedBy (test : Option Bool) (next : Phase) : Phase :=
  match test with
  | none => unreadableLedger
  | some true => .done .alreadyResolved
  | some false => next

/-- `_curation_attempt_already_resolved_locked` -/
def resolving (plan : StewardPlan) (again : Bool) : Check → Phase
  | .curated => resolvedBy (alreadyCurated env a.kind (m.ledgers a.kind) plan.curationKey) (.resolving again .legacyRow)
  | .legacyRow =>
    resolvedBy (legacyCurationTerminal env a.kind (m.ledgers a.kind) a.source) (.resolving again .legacyClaim)
  | .legacyClaim =>
    if a.source.runId ≠ "" && (m.files (a.kind, a.source.runId)).isSome then .done .alreadyResolved
    else .resolving again .claim
  | .claim =>
    match m.files (a.kind, plan.curationKey) with
    | none => if again then .creating else .deciding
    | some file =>
      match readCurationClaim env a.text a.kind plan.curationKey file with
      | none => .diagnosing "ValueError"
      | some claim => .recovering claim

def decidedBy : List (Except Failure (Option (Outcome × Proposals))) → Except Failure (Option (Outcome × Proposals))
  | [] => .ok none
  | path :: rest =>
    match path with
    | .error failure => .error failure
    | .ok (some decided) => .ok (some decided)
    | .ok none => decidedBy rest

def deciding (plan : StewardPlan) : Phase :=
  match decidedBy plan.fastPaths with
  | .error failure => raised failure
  | .ok (some (outcome, proposals)) => .settling (a.planRow env plan none outcome proposals)
  | .ok none =>
    if !plan.hasInput then .settling (a.planRow env plan none .empty a.emptyProposals)
    else if a.client = none then .settling (a.planRow env plan none .unavailable a.emptyProposals)
    else .resolving true .curated

def appending (row : CurationRow) (unreadable : Phase) (next : Bool → Phase) : Memory × Phase :=
  match appendCurationOnce env a.kind (m.ledgers a.kind) row with
  | none => (m, unreadable)
  | some (appended, rows) => ({ m with ledgers := Function.update m.ledgers a.kind rows }, next appended)

/-- `settle` -/
def settling (row : CurationRow) (unreadable : Phase) : Memory × Phase :=
  appending env a m row unreadable fun appended => .done (if appended then .settled row.outcome else .alreadyResolved)

def setFile (name : String) (file : ClaimFile) : Memory :=
  { m with files := Function.update m.files (a.kind, name) (some file) }

/-- The exclusive creation of `_write_curation_claim`, after its check of the ids. -/
def creating (plan : StewardPlan) : Memory × Phase :=
  if !(idOk a.source.runId && idOk a.source.taskId) then (m, .diagnosing "ValueError")
  else if (m.files (a.kind, plan.curationKey)).isSome then (m, .diagnosing "FileExistsError")
  else (setFile a m plan.curationKey .unreadable, .writing)

/-- What one step of `_run_finalize_steward` makes of the memory and of the attempt. -/
def next (phase : Phase) : Option (Memory × Phase) :=
  match phase, a.plan? env with
  | .start, plan =>
    if !a.enabled then some (m, .done .disabled)
    else
      match plan, a.planned env with
      | some _, _ => some (m, .resolving false .curated)
      | none, .ok (.settled outcome) => some (m, .done (.settled outcome))
      | none, .error failure => some (m, raised failure)
      | none, _ => none
  | .resolving again check, some plan => some (m, resolving env a m plan again check)
  | .recovering claim, some _ =>
    some (appending env a m (a.recoveredRow env claim) unreadableLedger fun _ => .done .alreadyResolved)
  | .deciding, some plan => some (m, deciding env a plan)
  | .settling row, some _ => some (settling env a m row unreadableLedger)
  | .creating, some plan => some (creating a m plan)
  | .writing, some plan => some (setFile a m plan.curationKey (.record (a.claimOf env plan)), .asking)
  | .asking, some plan =>
    match plan.propose with
    | .ok (outcome, proposals) => some (m, .answering (a.planRow env plan a.client outcome proposals))
    | .error failure => some (m, .failing failure)
  | .answering row, some _ => some (settling env a m row (.failing ⟨"GovernanceLedgerUnavailable", false⟩))
  | .failing failure, some plan =>
    some (appending env a m (a.planRow env plan a.client .error a.emptyProposals (some failure.errorType))
      unreadableLedger fun _ => .done (if failure.stop then .stopped else .error))
  | .diagnosing errorType, _ =>
    some (appending env a m (a.diagnosticRow env errorType) (.done .error) fun _ => .done .error)
  | _, _ => none

end Next

/-! ## Runs -/

/-- The memory, who holds the decision lock of each key, where each attempt is, and what the provider was asked
for. -/
structure Stewards where
  memory : Memory
  lock : StewardKind × String → Option Nat := fun _ => none
  phase : Nat → Phase := fun _ => .start
  asked : List (StewardKind × String) := []

/-- An attempt goes on, dies, or fails in the write of its claim file, which then may be torn. -/
inductive StewardAction where
  | advance (i : Nat)
  | die (i : Nat)
  | claimFails (i : Nat) (whole : Bool)

section Run
variable (env : CurationEnv) (attempts : Nat → Attempt)

/-- The attempt's phase is the new one; it takes or leaves the lock of its key as the phase has it. -/
def Stewards.move (s : Stewards) (i : Nat) (key : Option (StewardKind × String)) (memory : Memory) (phase : Phase) :
    Option Stewards :=
  let moved := { s with memory, phase := Function.update s.phase i phase }
  match key, (s.phase i).locked, phase.locked with
  | some key, false, true =>
    if s.lock key = none then some { moved with lock := Function.update s.lock key (some i) } else none
  | some key, true, false => some { moved with lock := Function.update s.lock key none }
  | _, _, _ => some moved

/-- The provider is asked as the attempt leaves `asking`. -/
def Stewards.ask (s : Stewards) (key : Option (StewardKind × String)) (phase : Phase) : Stewards :=
  match phase, key with
  | .asking, some key => { s with asked := key :: s.asked }
  | _, _ => s

def stewardStep (s : Stewards) : StewardAction → Option Stewards
  | .advance i => do
    let a := attempts i
    let (memory, phase) ← next env a s.memory (s.phase i)
    (s.ask (a.key? env) (s.phase i)).move i (a.key? env) memory phase
  | .die i =>
    match s.phase i with
    | .done _ | .dead => none
    | _ => s.move i ((attempts i).key? env) s.memory .dead
  | .claimFails i whole =>
    match s.phase i, (attempts i).plan? env with
    | .writing, some plan =>
      let memory :=
        if whole then setFile (attempts i) s.memory plan.curationKey (.record ((attempts i).claimOf env plan))
        else s.memory
      s.move i ((attempts i).key? env) memory (.diagnosing "OSError")
    | _, _ => none

def stewardRun (s : Stewards) (actions : List StewardAction) : Option Stewards :=
  actions.foldlM (stewardStep env attempts) s

end Run

end LoopLab.Engine
