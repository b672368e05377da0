import LoopLab.Engine.ConceptPolicy
import LoopLab.Lib.Checks

/-!
# Governance writes

One append to a policy ledger under the memory-wide lock: its payload is normalized and bounded before, the
health of both ledgers is checked, an action id that was committed gives its first row back, the revisions are
compared, and what the write says is validated against the policy in force.
-/

set_option autoImplicit false

namespace LoopLab.Engine
open Lib

inductive PolicyRefusal where
  | emptyField (field : String)
  | exceeds (field : String) (maximum : Nat)
  | selfLink
  | blankActionId
  | badRevision (field : String)
  | tooManyRules
  | tooManyTerms
  | ownTarget (source : String)
  | noRule
  | sourcePurged (source : String)
  | sourceAliased (source resolved : String)
  | absent (concept : String)
  | notCanonical (target : String) (resolved : Option String)
  | targetPurged (target : String)
  | wouldCloseCycle (source target : String)
  | targetsRepeat
  | splitChild (source : String)
  | splitSource (target : String)
  | noProgress (target source : String)
  | noPolicy (source : String)
  | globalConflict (expected : Int) (actual : Nat)
  | conflict (expected : Int) (actual : Nat)
  | idempotencyConflict (actionId : String)
  | unavailable (reason : HealthReason)
  deriving DecidableEq, Repr

/-- The two ledgers, and the concepts of each capsule where the store of capsules is complete. -/
structure ConceptMemory where
  aliases : List AliasRow := []
  splits : List SplitRow := []
  capsules : Option (List (List String)) := some []

structure WriteOptions where
  by_ : String := "operator"
  at_ : String := ""
  expectedRevision : Option Int := none
  expectedGovernanceRevision : Option Int := none
  actionId : String := ""
  requireExisting : Bool := false

/-! ## Payloads -/

def boundedKey (env : KeyEnv) (value field : String) (maximum : Nat) (required : Bool) : Except PolicyRefusal String := do
  let out := normalizeKey env value
  failIf (required = true ∧ out = "") (.emptyField field)
  failIf (out.length > maximum) (.exceeds field maximum)
  pure out

def boundedText (value field : String) (maximum : Nat) : Except PolicyRefusal String := do
  failIf (value.length > maximum) (.exceeds field maximum)
  pure value

/-- `_validated_action_id`; nothing where there is none -/
def validatedActionId (value : String) : Except PolicyRefusal (Option String) := do
  let out ← boundedText value "action_id" MAX_ACTION_ID
  let id := Py.strip out
  failIf (value ≠ "" ∧ id = "") .blankActionId
  pure (if id = "" then none else some id)

def validateExpectedRevision (value : Option Int) (field : String) : Except PolicyRefusal Unit :=
  failIf (value.any (· < 0) = true) (.badRevision field)

def prepareConceptAlias (env : KeyEnv) (fromConcept toConcept : String) : Except PolicyRefusal (String × String) := do
  let src ← boundedKey env fromConcept "from_concept" MAX_CONCEPT true
  let dst ← boundedKey env toConcept "to_concept" MAX_CONCEPT false
  failIf (dst ≠ "" ∧ src = dst) .selfLink
  pure (src, dst)

def prepareConceptSource (env : KeyEnv) (fromConcept : String) : Except PolicyRefusal String :=
  boundedKey env fromConcept "from_concept" MAX_CONCEPT true

/-- One rule of `prepare_concept_split`; nothing where it is inert. -/
def prepareRule (env : KeyEnv) (src : String) (rule : SplitRule) : Except PolicyRefusal (Option SplitRule) := do
  let to_ ← boundedKey env rule.target "rule.to" MAX_CONCEPT false
  failIf (rule.whenAny.length > MAX_SPLIT_TERMS) .tooManyTerms
  let terms ← rule.whenAny.mapM fun term => boundedKey env term "rule.when_any item" MAX_SPLIT_TERM false
  let terms := terms.filter (· ≠ "")
  if to_ = "" ∨ terms = [] then pure none
  else do
    failIf (to_ = src) (.ownTarget src)
    pure (some ⟨to_, terms.dedup.insertionSort (· ≤ ·)⟩)

def prepareConceptSplit (env : KeyEnv) (fromConcept : String) (rules : List SplitRule) (default : String) :
    Except PolicyRefusal (String × List SplitRule × String) := do
  let src ← boundedKey env fromConcept "from_concept" MAX_CONCEPT true
  failIf (rules.length > MAX_SPLIT_RULES) .tooManyRules
  let prepared ← rules.mapM (prepareRule env src)
  let kept := prepared.filterMap id
  let dflt ← boundedKey env default "default" MAX_CONCEPT false
  failIf (kept = [] ∧ (dflt = "" ∨ dflt = src)) .noRule
  pure (src, kept, dflt)

/-! ## The ledgers' state -/

section Memory
variable (env : KeyEnv)

def healthy {α : Type} (x : Except HealthReason α) : Except PolicyRefusal α := x.mapError .unavailable

/-- `concept_governance_global_revision` -/
def governanceGlobalRevision (m : ConceptMemory) : Except HealthReason Nat := do
  let aliasRows ← readAliasRows env m.aliases
  let splitRows ← readSplitRows env m.splits
  let revisions := aliasRows.map (·.governanceRevision) ++ splitRows.map (·.governanceRevision)
  failIf (¬(revisions.Nodup ∧ ∀ r ∈ revisions, r ≤ revisions.length)) .revisionCollision
  failIf (¬∀ r ∈ List.range' 1 revisions.length, r ∈ revisions) .revisionCollision
  pure revisions.length

/-- The concepts of a capsule that pass `valid_concept_id`, each canonical among the others. -/
def canonicalizeConcepts (valid : String → Bool) (concepts : List String) (aliases : Aliases) (splits : Splits) :
    List String :=
  (List.range concepts.length).filterMap fun i => do
    let c ← concepts[i]?
    if valid c then canonicalizeConcept env c (concepts.eraseIdx i) aliases splits else none

/-- `_observed_concept_snapshot` -/
def observedConcepts (valid : String → Bool) (m : ConceptMemory) (aliases : Aliases) (splits : Splits) :
    Except HealthReason (List String) :=
  match m.capsules with
  | none => .error .invalidRecord
  | some capsules =>
    .ok (capsules.flatMap (canonicalizeConcepts env valid · aliases splits) ++
      splits.rows.flatMap fun (_, spec) =>
        (splitTargets spec.rules spec.default).filterMap fun target => aliasedSource env target aliases)

end Memory

/-! ## Appends -/

section Append
variable {Change : Type} [DecidableEq Change]

/-- `append_governance`, from the strict read of the ledger and the shared revision: the row, and the ledger
after it. -/
def appendGovernance (rows : Except HealthReason (List (PolicyRow Change))) (total : Except HealthReason Nat)
    (change : Change) (source by_ at_ : String) (actionId : Option String) (opts : WriteOptions)
    (validate : Except PolicyRefusal Unit) : Except PolicyRefusal (PolicyRow Change × List (PolicyRow Change)) := do
  let rows ← healthy rows
  let total ← healthy total
  match actionId.bind fun id => rows.find? (·.actionId = some id) with
  | some existing =>
    if existing.change = change ∧ existing.source = source then pure (existing, rows)
    else .error (.idempotencyConflict (actionId.getD ""))
  | none => do
    failIf (opts.expectedGovernanceRevision.any (· ≠ (total : Int)) = true)
      (.globalConflict (opts.expectedGovernanceRevision.getD 0) total)
    let current := (rows.map (·.revision)).foldl max rows.length
    failIf (opts.expectedRevision.any (· ≠ (current : Int)) = true) (.conflict (opts.expectedRevision.getD 0) current)
    validate
    let row : PolicyRow Change :=
      { change, source, by_, at_, actionId, revision := current + 1, governanceRevision := total + 1 }
    pure (row, rows ++ [row])

end Append

/-! ## The four writers -/

section Writers
variable (env : KeyEnv) (valid : String → Bool) (m : ConceptMemory) (opts : WriteOptions)

def whenExisting (check : Except PolicyRefusal Unit) : Except PolicyRefusal Unit :=
  if opts.requireExisting then check else pure ()

/-- The checks of `_validate_locked`. -/
def validateAlias (src dst : String) : Except PolicyRefusal Unit := do
  let aliases ← healthy (loadConceptAliases env m.aliases)
  whenExisting opts do
    let splits ← healthy (loadConceptSplits env m.splits)
    let known ← healthy (observedConcepts env valid m aliases splits)
    failIf (resolveSlug env src aliases = none) (.sourcePurged src)
    failIf (resolveSlug env src aliases ≠ some src) (.sourceAliased src ((resolveSlug env src aliases).getD ""))
    failIf (src ∉ known) (.absent src)
    failIf (dst ≠ "" ∧ resolveSlug env dst aliases ≠ some dst) (.notCanonical dst (resolveSlug env dst aliases))
    failIf (dst ≠ "" ∧ dst ∉ known) (.absent dst)
  failIf (dst ≠ "" ∧ resolveSlug env dst aliases = none) (.targetPurged dst)
  failIf (dst ≠ "" ∧ wouldCycle src dst aliases = true) (.wouldCloseCycle src dst)

def checkOptions : Except PolicyRefusal (String × String × Option String) := do
  validateExpectedRevision opts.expectedRevision "expected_revision"
  validateExpectedRevision opts.expectedGovernanceRevision "expected_governance_revision"
  let actionId ← validatedActionId opts.actionId
  let by_ ← boundedText (if opts.by_ = "" then "operator" else opts.by_) "by" MAX_ACTOR
  let at_ ← boundedText opts.at_ "at" MAX_AT
  pure (by_, at_, actionId)

def recordConceptAlias (fromConcept toConcept : String) : Except PolicyRefusal (AliasRow × ConceptMemory) := do
  let (src, dst) ← prepareConceptAlias env fromConcept toConcept
  let (by_, at_, actionId) ← checkOptions opts
  let (row, rows) ← appendGovernance (readAliasRows env m.aliases) (governanceGlobalRevision env m)
    (if dst = "" then .purge else .set dst) src by_ at_ actionId opts (validateAlias env valid m opts src dst)
  pure (row, { m with aliases := rows })

def clearConceptAlias (fromConcept : String) : Except PolicyRefusal (AliasRow × ConceptMemory) := do
  let src ← prepareConceptSource env fromConcept
  let (by_, at_, actionId) ← checkOptions opts
  let (row, rows) ← appendGovernance (readAliasRows env m.aliases) (governanceGlobalRevision env m)
    .clear src by_ at_ actionId opts (whenExisting opts do
      let aliases ← healthy (loadConceptAliases env m.aliases)
      failIf ((aliases.get src).isNone = true) (.noPolicy src))
  pure (row, { m with aliases := rows })

def splitChildren (splits : Splits) : List String :=
  splits.rows.flatMap fun (source, spec) =>
    spec.rules.map (·.target) ++ if spec.default ≠ "" ∧ spec.default ≠ source then [spec.default] else []

/-- The checks of one target in `_validate_targets`. -/
def validateTarget (src : String) (rules : List SplitRule) (aliases : Aliases) (splits : Splits) (target : String) :
    Except PolicyRefusal Unit := do
  failIf ((splits.get target).isSome = true ∧ target ≠ src) (.splitSource target)
  failIf (resolveSlug env target aliases = none) (.targetPurged target)
  failIf (resolveSlug env target aliases = some src ∧ target ∈ rules.map (·.target)) (.noProgress target src)
  failIf ((aliases.get target).isSome = true ∨ resolveSlug env target aliases ≠ some target)
    (.notCanonical target (resolveSlug env target aliases))

def validateTargets (src : String) (rules : List SplitRule) (dflt : String) : Except PolicyRefusal Unit := do
  let aliases ← healthy (loadConceptAliases env m.aliases)
  let splits ← healthy (loadConceptSplits env m.splits)
  failIf (resolveSlug env src aliases = none) (.sourcePurged src)
  failIf ((aliases.get src).isSome = true ∨ resolveSlug env src aliases ≠ some src)
    (.sourceAliased src ((resolveSlug env src aliases).getD ""))
  whenExisting opts do
    let known ← healthy (observedConcepts env valid m aliases splits)
    failIf (src ∉ known) (.absent src)
  let targets := splitTargets rules dflt
  failIf (¬targets.Nodup) .targetsRepeat
  failIf (src ∈ splitChildren splits) (.splitChild src)
  targets.forM (validateTarget env src rules aliases splits)

def recordConceptSplit (fromConcept : String) (rules : List SplitRule) (default : String) :
    Except PolicyRefusal (SplitRow × ConceptMemory) := do
  let (src, kept, dflt) ← prepareConceptSplit env fromConcept rules default
  let (by_, at_, actionId) ← checkOptions opts
  let (row, rows) ← appendGovernance (readSplitRows env m.splits) (governanceGlobalRevision env m)
    (.set kept dflt) src by_ at_ actionId opts (validateTargets env valid m opts src kept dflt)
  pure (row, { m with splits := rows })

def clearConceptSplit (fromConcept : String) : Except PolicyRefusal (SplitRow × ConceptMemory) := do
  let src ← prepareConceptSource env fromConcept
  let (by_, at_, actionId) ← checkOptions opts
  let (row, rows) ← appendGovernance (readSplitRows env m.splits) (governanceGlobalRevision env m)
    .clear src by_ at_ actionId opts (whenExisting opts do
      let splits ← healthy (loadConceptSplits env m.splits)
      failIf ((splits.get src).isNone = true) (.noPolicy src))
  pure (row, { m with splits := rows })

end Writers

/-! ## Runs -/

inductive ConceptCall where
  | recordAlias (opts : WriteOptions) (fromConcept toConcept : String)
  | clearAlias (opts : WriteOptions) (fromConcept : String)
  | recordSplit (opts : WriteOptions) (fromConcept : String) (rules : List SplitRule) (default : String)
  | clearSplit (opts : WriteOptions) (fromConcept : String)

inductive PolicyReceipt where
  | ofAlias (row : AliasRow) | ofSplit (row : SplitRow)

section Runs
variable (env : KeyEnv) (valid : String → Bool)

def ConceptCall.perform (m : ConceptMemory) : ConceptCall → Except PolicyRefusal (PolicyReceipt × ConceptMemory)
  | .recordAlias opts src dst => (recordConceptAlias env valid m opts src dst).map fun r => (.ofAlias r.1, r.2)
  | .clearAlias opts src => (clearConceptAlias env m opts src).map fun r => (.ofAlias r.1, r.2)
  | .recordSplit opts src rules dflt => (recordConceptSplit env valid m opts src rules dflt).map fun r => (.ofSplit r.1, r.2)
  | .clearSplit opts src => (clearConceptSplit env m opts src).map fun r => (.ofSplit r.1, r.2)

inductive ConceptStep where
  | call (c : ConceptCall)
  | capsules (stored : Option (List (List String)))

def ConceptMemory.after (m : ConceptMemory) : ConceptStep → ConceptMemory
  | .call c => (c.perform env valid m).toOption.elim m Prod.snd
  | .capsules stored => { m with capsules := stored }

def ConceptMemory.run (m : ConceptMemory) (steps : List ConceptStep) : ConceptMemory :=
  steps.foldl (ConceptMemory.after env valid) m

end Runs

end LoopLab.Engine
