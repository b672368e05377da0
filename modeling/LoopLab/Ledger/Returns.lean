import LoopLab.Ledger.Merge
import LoopLab.Fold.Log

/-!
# The forgiven builds

A build that never ran, and one whose developer reported building something else, say nothing of their card.
-/

set_option autoImplicit false

namespace LoopLab
open Lib

structure CardInputs where
  st : RunState
  builds : Builds := {}
  buildings : Dict Int Marker := Table.empty
  board : CardBoard := {}

def IDEA_REPORT_NAME : String := "looplab_idea_report.json"
def NOT_A_TEST : List String := ["different", "not_implemented"]
def REPORT_MAX_CHARS : Nat := 4096
def CARD_FRESHNESS_SUPERSEDED_ERROR : String := "superseded by Card freshness gate"

section Reports
variable (env : LedgerEnv) (st : RunState)

def reportText (n : Node) : Option String :=
  ((n.files.obj?.getD []).get IDEA_REPORT_NAME).str?.filter (· ≠ "")

def inheritedReport (n : Node) : Bool :=
  (reportText n).isSome && n.parentIds.any fun p => (st.nodes.get p).bind reportText = reportText n

/-- `idea_not_tested`: the developer reported not building the idea. -/
def ideaNotTested (n : Node) : Bool :=
  if inheritedReport st n then false else
  match ((reportText n).filter (·.length ≤ REPORT_MAX_CHARS)).bind env.parseJson with
  | some report => ((report.obj?.getD []).get "idea_implemented").oneOf NOT_A_TEST
  | none => false

end Reports

section Discards
variable (st : RunState) (builds : Builds)

/-- `_durable_speculative_lifecycle`: both receipts bind the first lifecycle of the node. -/
def durableSpeculativeLifecycle (n : Node) : Bool :=
  n.attempt = 0 && n.speculative &&
    (builds.speculativeNodes.get n.id).any fun link =>
      some link.cardId = n.idea.cardId && n.cardBuildGeneration = some link.generation

/-- `is_unevaluated_speculative_discard`: the node provably never ran. -/
def isUnevaluatedSpeculativeDiscard (n : Node) : Bool :=
  n.status = .failed && durableSpeculativeLifecycle builds n && n.evalStartBoundary &&
    !n.evalStarted && n.evalSeconds.eqInt 0 && n.stages.isEmpty &&
    (n.neverEvaluated ||
      (n.errorReason = "superseded" && n.error.eqStr CARD_FRESHNESS_SUPERSEDED_ERROR))

def evidenceWhere (kind : Node → Bool) (c : Card) : List Int :=
  (c.evidence.filter fun i => (st.nodes.get i).any kind).mergeSort

/-- `_apply_unexecuted_discards`, for one card. -/
def discardedNodes (c : Card) : List Int := evidenceWhere st (isUnevaluatedSpeculativeDiscard builds) c

/-- The node is another card's business: built, ended and reported as something else. -/
def substitutedBuild (env : LedgerEnv) (n : Node) : Bool :=
  !n.tombstoned && n.status ≠ .pending && ideaNotTested env st n

/-- `_apply_substituted_builds`, for one card; a discard is not forgiven twice. -/
def substitutedNodes (env : LedgerEnv) (c : Card) : List Int :=
  (evidenceWhere st (substitutedBuild st env) c).filter (!(discardedNodes st builds c).contains ·)

end Discards

section Surpassed
variable (env : LedgerEnv) (st : RunState)

/-- The nodes built on some node, at any depth: those found, and those still to look below. -/
def descendants : Nat → List Int → List Int → List Int
  | 0, seen, _ => seen
  | fuel + 1, seen, frontier =>
    let below := (st.nodes.rows.filter fun n => n.parentIds.any (frontier.contains ·)).map Node.id
    match below.filter (!seen.contains ·) with
    | [] => seen
    | fresh => descendants fuel (seen ++ fresh) fresh

/-- A later build counts against a node: another card's, tested, eligible and better. -/
def surpasses (root : Node) (baseline : Rat) (n : Node) : Bool :=
  n.status = .evaluated && !n.tombstoned && (root.idea.cardId.isNone || n.idea.cardId ≠ root.idea.cardId)
    && countsTowardBest st.breedExcluded st.abortedNodes n
    && n.metric.finiteMetric.any (isBetter st.direction · baseline) && !ideaNotTested env st n

def surpassedBy (id : Int) : List Int :=
  match st.nodes.get id with
  | none => []
  | some root =>
    match root.metric.finiteMetric with
    | none => []
    | some baseline =>
      ((descendants st st.nodes.rows.length [id] [id]).filter fun i =>
        i ≠ id && (st.nodes.get i).any (surpasses env st root baseline)).mergeSort

end Surpassed

section Returns
variable (env : LedgerEnv) (inputs : CardInputs) (canon : String → String) (cards : Cards)

def markersOf (id : String) : List Int :=
  ((inputs.buildings.rows.filter fun r => (r.2.cardId.bind (cardId env)).map canon = some id).map
    Prod.fst).mergeSort

/-- `_card_building_ids`: the cards with a build in flight. -/
def cardBuildingIds : Dict String (List Int) :=
  cards.collect Prod.fst
    (fun c => match markersOf env inputs canon c.id with
      | [] => none
      | ids => some (c.id, ids))
    (by
      intro c e h
      split at h
      · cases h
      · cases h
        rfl)

/-- `_rebuild_in_flight`: a build of the card is under way that has no node yet. -/
def rebuildInFlight (n : Node) (requested : Bool) (claimedBy : List Int) : Bool :=
  claimedBy.any (· ≠ n.id) ||
    (requested && !(n.speculative && !inputs.builds.speculativeNodes.has n.id))

/-- Work the return can wait on: newer than the forgiven node and in flight. -/
def newerInFlight (only i : Int) : Bool :=
  only < i && (inputs.st.nodes.get i).any (fun n => n.status = .pending && !n.tombstoned)
    && !inputs.st.aborted i

/-- What the return leaves of a card: its evidence, and the nodes that withheld it. -/
def returnedEvidence (building : List Int) (c : Card) : List Int × List Int :=
  match (c.discardedNodes ++ c.substitutedNodes).eraseDups with
  | [only] =>
    match inputs.st.nodes.get only with
    | none => (c.evidence, [])
    | some n =>
      let substituted := c.substitutedNodes.contains only
      let rest := c.evidence.filter (· ≠ only)
      if substituted && (inputs.st.breedExcluded.contains only || !n.feasible) then (c.evidence, [])
      else if !rest.all (newerInFlight inputs only) then (c.evidence, [])
      else if rest.isEmpty && substituted && !rebuildInFlight inputs n
          ((openCardBuildRequestIds inputs.builds).contains c.id) building then
        match surpassedBy env inputs.st only with
        | [] => (rest, [])
        | beaten => (c.evidence, beaten)
      else (rest, [])
  | _ => (c.evidence, [])

/-- The forgiven builds of the cards, and the cards as they are before any return. -/
def markForgiven : Cards :=
  cards.mapRows
    (fun c => { c with
      discardedNodes := discardedNodes inputs.st inputs.builds c
      substitutedNodes := substitutedNodes inputs.st inputs.builds env c })
    fun _ => rfl

def applyCardReturns (building : Dict String (List Int)) : Cards :=
  cards.mapRows
    (fun c =>
      let (evidence, withheldBy) := returnedEvidence env inputs ((building.get c.id).getD []) c
      { c with evidence, withheldBy })
    fun _ => rfl

end Returns

end LoopLab
