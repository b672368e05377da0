import LoopLab.Json
import LoopLab.Lib.Table
import Mathlib.Data.List.Sort
import Mathlib.Data.Finset.Sort
import Mathlib.Data.String.Basic

/-!
# The policy of concepts

Operators merge, purge and split concepts in two ledgers.
-/

set_option autoImplicit false

namespace LoopLab.Engine
open Lib

structure KeyEnv where
  nfkc : List Char → List Char
  casefold : List Char → List Char
  /-- `[^\W_]` -/
  word : Char → Bool

def CONCEPT_TOMBSTONE : String := "\x00purged"
def MAX_CONCEPT : Nat := 500
def MAX_ACTOR : Nat := 120
def MAX_AT : Nat := 120
def MAX_SPLIT_RULES : Nat := 64
def MAX_SPLIT_TERMS : Nat := 32
def MAX_SPLIT_TERM : Nat := 200
def MAX_ACTION_ID : Nat := 160
def MAX_POLICY_ENTRIES : Nat := 2000

/-- `[\x00-\x08\x0b\x0c\x0e-\x1f\x7f-\x9f]` -/
def controlChar (c : Char) : Bool :=
  let n := c.toNat
  n ≤ 8 || n = 11 || n = 12 || (14 ≤ n && n ≤ 31) || (127 ≤ n && n ≤ 159)

/-- `re.sub(r"\s+", " ", t)` -/
def collapseSpaces : List Char → List Char
  | [] => []
  | c :: rest =>
    if Py.isSpace c then
      match rest with
      | d :: _ => if Py.isSpace d then collapseSpaces rest else ' ' :: collapseSpaces rest
      | [] => [' ']
    else c :: collapseSpaces rest

def normalizeKey (env : KeyEnv) (s : String) : String :=
  let t := Py.stripChars (env.casefold (env.nfkc s.toList))
  String.ofList (collapseSpaces (t.filter (!controlChar ·)))

/-! ## Rows -/

structure PolicyRow (Change : Type) where
  change : Change
  /-- `from` -/
  source : String
  by_ : String
  at_ : String
  actionId : Option String
  revision : Nat
  governanceRevision : Nat

inductive AliasChange where
  | set (dst : String) | purge | clear
  deriving DecidableEq, Repr

structure SplitRule where
  /-- `to` -/
  target : String
  whenAny : List String
  deriving DecidableEq, Repr

inductive SplitChange where
  | set (rules : List SplitRule) (default : String) | clear
  deriving DecidableEq, Repr

abbrev AliasRow := PolicyRow AliasChange
abbrev SplitRow := PolicyRow SplitChange

inductive HealthReason where
  | invalidRecord | duplicateActionId | invalidRevision | revisionMismatch | revisionCollision | identityCycle
  deriving DecidableEq, Repr

section Reading
variable (env : KeyEnv) {Change : Type}

def validateConceptCommon (row : PolicyRow Change) : Option HealthReason :=
  let source := normalizeKey env row.source
  if source = "" || source.length > MAX_CONCEPT then some .invalidRecord
  else if row.by_.length > MAX_ACTOR || row.at_.length > MAX_AT then some .invalidRecord
  else if row.actionId.any fun id => id.length > MAX_ACTION_ID || Py.strip id = "" then some .invalidRecord
  else if row.revision < 1 || row.governanceRevision < 1 then some .invalidRevision
  else none

def validateAliasRow (row : AliasRow) : Option HealthReason :=
  match validateConceptCommon env row with
  | some reason => some reason
  | none =>
    match row.change with
    | .clear | .purge => none
    | .set dst =>
      let target := normalizeKey env dst
      if target.length > MAX_CONCEPT then some .invalidRecord
      else if target = "" || target = normalizeKey env row.source then some .invalidRecord
      else none

def splitRuleOk (source : String) (rule : SplitRule) : Bool :=
  let target := normalizeKey env rule.target
  target ≠ "" && target.length ≤ MAX_CONCEPT && target ≠ source && !rule.whenAny.isEmpty &&
    rule.whenAny.length ≤ MAX_SPLIT_TERMS &&
    rule.whenAny.all fun term => normalizeKey env term ≠ "" && (normalizeKey env term).length ≤ MAX_SPLIT_TERM

def splitTargets (rules : List SplitRule) (default : String) : List String :=
  rules.map (·.target) ++ if default = "" then [] else [default]

def normalizeRule (rule : SplitRule) : SplitRule where
  target := normalizeKey env rule.target
  whenAny := (rule.whenAny.map (normalizeKey env)).filter (· ≠ "")

def validateSplitRow (row : SplitRow) : Option HealthReason :=
  match validateConceptCommon env row with
  | some reason => some reason
  | none =>
    match row.change with
    | .clear => none
    | .set rules default =>
      let source := normalizeKey env row.source
      let fallback := normalizeKey env default
      if rules.length > MAX_SPLIT_RULES || !rules.all (splitRuleOk env source) then some .invalidRecord
      else if fallback.length > MAX_CONCEPT || (rules.isEmpty && (fallback = "" || fallback = source)) then
        some .invalidRecord
      else if ¬(splitTargets (rules.map (normalizeRule env)) fallback).Nodup then some .invalidRecord
      else none

/-- `validate_action_ids` -/
def actionIdsDistinct (rows : List (PolicyRow Change)) : Bool := (rows.filterMap (·.actionId)).Nodup

/-- `validate_local_revisions` -/
def revisionsLocal (rows : List (PolicyRow Change)) : Bool :=
  rows.map (·.revision) = List.range' 1 rows.length

def readPolicyRows (validate : PolicyRow Change → Option HealthReason) (rows : List (PolicyRow Change)) :
    Except HealthReason (List (PolicyRow Change)) :=
  match rows.findSome? validate with
  | some reason => .error reason
  | none =>
    if !actionIdsDistinct rows then .error .duplicateActionId
    else if !revisionsLocal rows then .error .revisionMismatch
    else .ok rows

def readAliasRows (rows : List AliasRow) : Except HealthReason (List AliasRow) :=
  readPolicyRows (validateAliasRow env) rows

def readSplitRows (rows : List SplitRow) : Except HealthReason (List SplitRow) :=
  readPolicyRows (validateSplitRow env) rows

end Reading

/-! ## Aliases -/

abbrev Aliases := Dict String String

/-- The loop of `_would_cycle`; the fuel is a step for every key and one more. -/
def wouldCycleLoop (aliases : Aliases) (src : String) : Nat → List String → String → Bool
  | 0, _, cur => cur = src
  | fuel + 1, seen, cur =>
    match aliases.get cur with
    | none => cur = src
    | some nxt =>
      if cur ∈ seen then cur = src
      else if nxt = CONCEPT_TOMBSTONE then false
      else wouldCycleLoop aliases src fuel (cur :: seen) nxt

def wouldCycle (src dst : String) (aliases : Aliases) : Bool :=
  wouldCycleLoop aliases src (aliases.rows.length + 1) [src] dst

section Aliasing
variable (env : KeyEnv)

def applyAlias (aliases : Aliases) (row : AliasRow) : Aliases :=
  let src := normalizeKey env row.source
  match row.change with
  | .clear => Table.erase aliases src
  | .purge => aliases.set src CONCEPT_TOMBSTONE
  | .set dst =>
    let target := normalizeKey env dst
    if target ≠ "" && target.length ≤ MAX_CONCEPT then aliases.set src target else aliases

def replayAlias (aliases : Aliases) (row : AliasRow) : Except HealthReason Aliases :=
  let src := normalizeKey env row.source
  let out := applyAlias env aliases row
  match out.get src with
  | some target =>
    if target ≠ "" && target ≠ CONCEPT_TOMBSTONE && wouldCycle src target out then .error .identityCycle else .ok out
  | none => .ok out

def loadConceptAliases (rows : List AliasRow) : Except HealthReason Aliases := do
  let rows ← readAliasRows env rows
  rows.foldlM (replayAlias env) Table.empty

/-- The loop of `resolve_slug`, with the slugs it came by in their order; nothing where the fuel runs out. -/
def resolveLoop (aliases : Aliases) : Nat → List String → String → Option (Option String)
  | 0, _, _ => none
  | fuel + 1, order, cur =>
    match aliases.get cur with
    | none => some (if cur = "" then none else some cur)
    | some nxt =>
      if cur ∈ order then some (order.drop (order.idxOf cur)).min?
      else if nxt = CONCEPT_TOMBSTONE then some none
      else resolveLoop aliases fuel (order ++ [cur]) (normalizeKey env nxt)

/-- `resolve_slug`; nothing where the concept is purged -/
def resolveSlug (slug : String) (aliases : Aliases) : Option String :=
  (resolveLoop env aliases (aliases.rows.length + 1) [] (normalizeKey env slug)).join

end Aliasing

/-! ## Splits -/

structure SplitSpec where
  rules : List SplitRule
  default : String
  deriving DecidableEq, Repr

abbrev Splits := Dict String SplitSpec

section Splitting
variable (env : KeyEnv)

def applySplit (splits : Splits) (row : SplitRow) : Splits :=
  let src := normalizeKey env row.source
  match row.change with
  | .clear => Table.erase splits src
  | .set rules default =>
    let rules := rules.map (normalizeRule env)
    let fallback := normalizeKey env default
    if !rules.isEmpty || (fallback ≠ "" && fallback ≠ src) then splits.set src ⟨rules, fallback⟩ else splits

def loadConceptSplits (rows : List SplitRow) : Except HealthReason Splits := do
  let rows ← readSplitRows env rows
  pure (rows.foldl (applySplit env) Table.empty)

/-- `_WORD.findall` -/
def words (cs : List Char) : List String :=
  ((cs.splitBy fun a b => env.word a && env.word b).filter fun run => run.all env.word).map String.ofList

def ctxTokens (concepts : List String) : List String :=
  concepts.flatMap fun c => words env (normalizeKey env c).toList

def triggered (ctx : List String) (term : String) : Bool :=
  let tokens := ctxTokens env [term]
  !tokens.isEmpty && tokens.all (ctx.contains ·)

def resolveSplit (slug : String) (context : List String) (splits : Splits) : String :=
  let s := normalizeKey env slug
  match splits.get s with
  | none => s
  | some spec =>
    let ctx := ctxTokens env context
    match spec.rules.find? fun rule => rule.target ≠ "" && rule.whenAny.any (triggered env ctx) with
    | some rule => rule.target
    | none => if spec.default = "" then s else spec.default

def aliasedSource (slug : String) (aliases : Aliases) : Option String :=
  if aliases.rows.isEmpty then
    if normalizeKey env slug = "" then none else some (normalizeKey env slug)
  else (resolveSlug env slug aliases).filter (· ≠ "")

def siblingSources (siblings : List String) (aliases : Aliases) (source : String) : List String :=
  (siblings.filterMap (aliasedSource env · aliases)).filter (· ≠ source)

def canonicalizeConcept (slug : String) (siblings : List String) (aliases : Aliases) (splits : Splits) :
    Option String :=
  match aliasedSource env slug aliases with
  | none => none
  | some source =>
    let context := ctxTokens env (siblingSources env siblings aliases source)
    let target := if splits.rows.isEmpty then source else resolveSplit env source context splits
    if aliases.rows.isEmpty then if normalizeKey env target = "" then none else some (normalizeKey env target)
    else resolveSlug env target aliases

/-! ## The table for clients -/

structure CanonicalPolicy where
  canonical : Dict String (Option String)
  canonicalOmitted : Nat
  splitSources : List String
  splitSourcesOmitted : Nat

/-- A key is context dependent where it is split, or resolves to a split source. -/
def contextDependent (aliases : Aliases) (splits : Splits) (source : String) : Bool :=
  (resolveSlug env source aliases).any fun resolved => (splits.get resolved).isSome

def conceptCanonicalizationPolicy (aliases : Aliases) (splits : Splits) : CanonicalPolicy :=
  let keys := aliases.rows.map Prod.fst
  let dependent := keys.filter (contextDependent env aliases splits)
  let ordered := (keys.filter (!contextDependent env aliases splits ·)).insertionSort (· ≤ ·)
  let sources := ((splits.rows.map Prod.fst ++ dependent).dedup).insertionSort (· ≤ ·)
  { canonical := (ordered.take MAX_POLICY_ENTRIES).foldl (fun d key => d.set key (resolveSlug env key aliases)) Table.empty
    canonicalOmitted := ordered.length - (ordered.take MAX_POLICY_ENTRIES).length
    splitSources := sources.take MAX_POLICY_ENTRIES
    splitSourcesOmitted := sources.length - MAX_POLICY_ENTRIES }

end Splitting

end LoopLab.Engine
