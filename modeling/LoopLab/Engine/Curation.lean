import LoopLab.Trace.Redact
import LoopLab.Lib.Journal

/-!
# The ledgers of paid curation

Each steward has a ledger of outcomes, keyed by the work they are about, and a directory of claim files, one for
each key that was about to be paid for.
-/

set_option autoImplicit false

namespace LoopLab.Engine
open Lib Redact

inductive StewardKind where
  | concept | claim | facets
  deriving DecidableEq, Repr

namespace StewardKind

def name : StewardKind → String
  | concept => "concept"
  | claim => "claim"
  | facets => "facets"

end StewardKind

def CURATION_ID_MAX_CHARS : Nat := 500

def FINALIZE_STEWARD_PARSER : String := "tool_call_once"

def FINALIZE_INPUT_SCHEMAS : StewardKind → List String
  | .concept => ["finalize-concept-curation/v1", "finalize-concept-curation/v2", "finalize-concept-curation/v3"]
  | .claim => ["finalize-claim-curation/v1", "finalize-claim-curation/v2", "finalize-claim-curation/v3"]
  | .facets => ["finalize-task-facets/v1", "finalize-task-facets/v2"]

def FINALIZE_DIAGNOSTIC_SCHEMAS : StewardKind → String
  | .concept => "finalize-concept-curation/input-unavailable"
  | .claim => "finalize-claim-curation/input-unavailable"
  | .facets => "finalize-task-facets/input-unavailable"

def validDigestRef (s : String) : Bool := s.toList.length = 64 && s.toList.all Py.hexDigit

/-- What `sha256(…).hexdigest()` gives. -/
structure HexDigest where
  text : String
  valid : validDigestRef text = true

structure RunSource where
  runId : String
  taskId : String
  finishSeq : Option Nat
  deriving DecidableEq

/-- `_semantic_digest` of a run's source and of a task. -/
structure CurationEnv where
  source : RunSource → HexDigest
  task : String → HexDigest

/-! ## Keys -/

section Keys
variable (env : CurationEnv)

def curationSourceKey (source : RunSource) : String := "source:v1:" ++ (env.source source).text

/-- `_portfolio_curation_key`, of a kind that is not the facets' -/
def portfolioCurationKey (kind : StewardKind) (inputDigest : String) : String :=
  kind.name ++ ":v2:" ++ inputDigest

def facetsCurationKey (taskId : String) : String := "facets:v2:" ++ (env.task taskId).text

def diagnosticCurationKey (kind : StewardKind) (source : RunSource) : String :=
  kind.name ++ ":diagnostic:v2:" ++ (env.source source).text

def curationKeyOf (kind : StewardKind) (inputDigest taskId : String) : String :=
  match kind with
  | .facets => facetsCurationKey env taskId
  | kind => portfolioCurationKey kind inputDigest

end Keys

/-! ## Rows -/

inductive Outcome where
  | unavailable | empty | proposed | error | priorAttemptIncompleteNotReplayed | alreadyGoverned
  deriving DecidableEq, Repr

inductive Proposals where
  | concept (merges splits purges : List Json)
  | claim (decisions : List Json)
  | facets (taskId : String) (facets : Obj)

structure Provenance where
  inputDigest : String
  inputSchema : String
  model : String
  parser : String
  deriving DecidableEq

structure CurationRow where
  curationKey : String
  sourceKey : String
  source : RunSource
  provenance : Provenance
  outcome : Outcome
  autoRequested : Bool
  proposals : Proposals
  errorType : Option String := none
  ambiguity : Option String := none

/-- A row of a ledger: of the finalize stewards, of their first version, which went by the run, or of an
invocation on demand. -/
inductive LedgerRow where
  | finalize (row : CurationRow)
  | legacy (runId taskId : String) (outcome : Outcome)
  | invocation

def printable (s : String) : Bool := s.toList.all (32 ≤ ·.toNat)

def idOk (s : String) : Bool := s.length ≤ CURATION_ID_MAX_CHARS && printable s

def validRequiredText (maximum : Nat) (s : String) : Bool := s ≠ "" && s.length ≤ maximum && printable s

def Proposals.fits (kind : StewardKind) (taskId : String) : Proposals → Bool
  | .concept _ _ _ => kind = .concept
  | .claim _ => kind = .claim
  | .facets task _ => kind = .facets && task = taskId

def CurationRow.notesOk (row : CurationRow) : Bool :=
  match row.outcome with
  | .error => row.errorType.any (validRequiredText 200) && row.ambiguity = none
  | .priorAttemptIncompleteNotReplayed => row.ambiguity = some "provider_outcome_unknown" && row.errorType = none
  | _ => row.errorType = none && row.ambiguity = none

section Reading
variable (env : CurationEnv) (kind : StewardKind)

def validateV2CurationRow (row : CurationRow) : Bool :=
  idOk row.source.runId && idOk row.source.taskId && row.sourceKey = curationSourceKey env row.source &&
    validRequiredText 200 row.provenance.inputSchema && validRequiredText 200 row.provenance.model &&
    row.provenance.parser = FINALIZE_STEWARD_PARSER && (row.outcome = .alreadyGoverned → kind = .facets) &&
    row.notesOk &&
    row.curationKey.length ≤ 240 &&
    (if row.curationKey = diagnosticCurationKey env kind row.source then
      row.provenance.inputDigest = "" && row.provenance.inputSchema = FINALIZE_DIAGNOSTIC_SCHEMAS kind &&
        row.outcome = .error
    else
      validDigestRef row.provenance.inputDigest &&
        (FINALIZE_INPUT_SCHEMAS kind).contains row.provenance.inputSchema &&
        row.curationKey = curationKeyOf env kind row.provenance.inputDigest row.source.taskId &&
        (kind = .facets → row.source.taskId ≠ "")) &&
    row.proposals.fits kind row.source.taskId

def validateCurationRow : LedgerRow → Bool
  | .finalize row => validateV2CurationRow env kind row
  | .legacy runId taskId outcome =>
    runId ≠ "" && runId.length ≤ CURATION_ID_MAX_CHARS && taskId.length ≤ CURATION_ID_MAX_CHARS &&
      outcome ≠ .priorAttemptIncompleteNotReplayed && (outcome = .alreadyGoverned → kind = .facets)
  | .invocation => true

def finalizeRows (rows : List LedgerRow) : List CurationRow :=
  rows.filterMap fun
    | .finalize row => some row
    | _ => none

/-- Nothing stands after the one terminal outcome of a key, and a source finds it unavailable but once. -/
def mayFollow (seen : List CurationRow) (row : CurationRow) : Bool :=
  !seen.any fun prior =>
    prior.curationKey = row.curationKey &&
      (prior.outcome ≠ .unavailable || (row.outcome = .unavailable && prior.sourceKey = row.sourceKey))

/-- `read_curation_rows`; nothing where the ledger is unreadable. -/
def readCurationRows (rows : List LedgerRow) : Option (List LedgerRow) :=
  if rows.all (validateCurationRow env kind) && Guarded.check mayFollow [] (finalizeRows rows) then some rows
  else none

def alreadyCurated (rows : List LedgerRow) (curationKey : String) : Option Bool :=
  (readCurationRows env kind rows).map fun rows =>
    (finalizeRows rows).any fun row => row.curationKey = curationKey && row.outcome ≠ .unavailable

def legacyCurationTerminal (rows : List LedgerRow) (source : RunSource) : Option Bool :=
  if source.runId = "" then some false
  else
    (readCurationRows env kind rows).map fun rows =>
      rows.any fun
        | .legacy runId taskId outcome =>
          runId = source.runId && taskId = source.taskId && outcome ≠ .unavailable
        | _ => false

/-- `_append_curation_once`: whether the row was appended, and the ledger after it. -/
def appendCurationOnce (rows : List LedgerRow) (row : CurationRow) : Option (Bool × List LedgerRow) :=
  (readCurationRows env kind rows).map fun seen =>
    if mayFollow (finalizeRows seen) row then (true, rows ++ [.finalize row]) else (false, rows)

end Reading

/-! ## Claims -/

structure Claim where
  kind : StewardKind
  curationKey : String
  sourceKey : String
  source : RunSource
  autoRequested : Bool
  provenance : Provenance
  deriving DecidableEq

inductive ClaimFile where
  | unreadable
  | record (claim : Claim)
  deriving DecidableEq

/-- `redact_persisted_text(…, entropy=True, single_line=True)` -/
def recorded (text : TextEnv) (maximum : Nat) (s : String) : String := redactPersistedText text (.str s) maximum true

/-- The checks of `_read_curation_claim`. -/
def claimOk (env : CurationEnv) (text : TextEnv) (kind : StewardKind) (curationKey : String) (claim : Claim) : Bool :=
  claim.kind = kind && claim.curationKey = curationKey && idOk claim.source.runId && idOk claim.source.taskId &&
    validRequiredText 80 claim.sourceKey && validRequiredText 100 claim.curationKey &&
    validRequiredText 64 claim.provenance.inputDigest && validRequiredText 200 claim.provenance.inputSchema &&
    validRequiredText 200 claim.provenance.model && validRequiredText 100 claim.provenance.parser &&
    validDigestRef claim.provenance.inputDigest &&
    recorded text 200 claim.provenance.inputSchema = claim.provenance.inputSchema &&
    recorded text 200 claim.provenance.model = claim.provenance.model &&
    recorded text 100 claim.provenance.parser = claim.provenance.parser &&
    curationKeyOf env kind claim.provenance.inputDigest claim.source.taskId = curationKey &&
    (kind = .facets → claim.source.taskId ≠ "") && curationSourceKey env claim.source = claim.sourceKey

/-- `_read_curation_claim`; nothing where the file is refused. -/
def readCurationClaim (env : CurationEnv) (text : TextEnv) (kind : StewardKind) (curationKey : String) :
    ClaimFile → Option Claim
  | .unreadable => none
  | .record claim => if claimOk env text kind curationKey claim then some claim else none

end LoopLab.Engine
