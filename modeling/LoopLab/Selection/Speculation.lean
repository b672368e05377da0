import LoopLab.Selection.Election

/-!
# The speculative election

A producer elects beside evaluations in flight, over a board whose acknowledged pending work is masked.
-/

set_option autoImplicit false

namespace LoopLab.CardSelection
open Lib

/-- `SpeculativeSelectionContext` -/
structure Context where
  scoring : Json := .null
  excludedCardIds : List String := []
  ignoredPendingNodeIds : List Int := []
  resourceEnvelope : Json := .null
  consumedInflight : List (Int × Int) := []
  refusedCardIds : List String := []

def nodeIdSet (values : List Int) : List Int := (values.filter (0 ≤ ·)).eraseDups

def nodeAttemptSet (values : List (Int × Int)) : List (Int × Int) :=
  values.filter fun v => 0 ≤ v.1 && 0 ≤ v.2

/-! ## The board before a build -/

def WORK_IN_FLIGHT : String := "work_in_flight"
def FRESHNESS_STALE : String := "freshness_stale"

def blockedBy (card : WorkCard) (blockers : List String) : Bool :=
  card.selectionBlockers.all (blockers.contains ·) && blockers.all (card.selectionBlockers.contains ·)

def builtBy (s : Snapshot) (card : WorkCard) (n : Node) : Bool :=
  n.status = .pending && n.attempt = 0 && !n.tombstoned && !s.st.aborted n.id &&
    n.idea.cardId = some card.id && card.evidence = [n.id] &&
    (card.status = .coded || card.status = .running)

def reservedBy (card : WorkCard) (marker : Option Marker) : Bool :=
  marker.any (·.cardId = some card.id) && card.evidence.isEmpty && card.status = .building

def restored (card : WorkCard) : WorkCard :=
  { card with
    status := .proposed
    verdict := .open
    actionable := true
    evidence := []
    bestDelta := none
    provenance := { card.provenance with ownerState := .none }
    selectionBlockers := []
    selectionReady := true }

def reopenable (s : Snapshot) (card : WorkCard) (nodeId : Int) : Bool :=
  card.provenance.ownerState = .inFlight && blockedBy card [WORK_IN_FLIGHT] &&
    card.droppedReason.isNone && card.mergedInto.isNone &&
    (match s.st.nodes.get nodeId with
      | some n => builtBy s card n
      | none => reservedBy card (s.marks.buildings.get nodeId)) &&
    strictlySelectionReady (restored card)

/-- The board without a build: its node and its marker are gone, its card is restored. -/
def withoutBuild (s : Snapshot) (card : WorkCard) (nodeId : Int) : Snapshot :=
  { s with
    cards := s.cards.put (restored card)
    st := { s.st with nodes := s.st.nodes.erase nodeId }
    marks := {
      buildings := s.marks.buildings.erase nodeId
      building := s.marks.building.filter (·.nodeId ≠ nodeId) } }

def counterfactualOwnedCardState (s : Snapshot) (cardId : String) (nodeId : Int) : Option Snapshot :=
  if cardId = "" || nodeId < 0 then none else
  match s.cards.get cardId with
  | some card => if reopenable s card nodeId then some (withoutBuild s card nodeId) else none
  | none => none

def mergedAliasIds (s : Snapshot) : List String :=
  (s.cards.rows.flatMap WorkCard.aliases).filter (· ≠ "")

def cardAdministrativelyDead (card : WorkCard) : Bool := card.status = .dropped || card.mergedInto.isSome

def staleInFlight (card : WorkCard) (nodeId : Int) : Bool :=
  card.droppedReason.isNone && card.mergedInto.isNone && card.provenance.ownerState = .inFlight &&
    card.evidence = [nodeId] && (card.status = .coded || card.status = .running) &&
    blockedBy card [FRESHNESS_STALE, WORK_IN_FLIGHT]

def durableReceipts (s : Snapshot) (n : Node) : Bool :=
  n.idea.cardId.any (· ≠ "") && durableSpeculativeLifecycle s.builds n

/-- A sibling that ends on its own turn: its card is closed, merged away or stale. -/
def endsItself (s : Snapshot) (cardId : String) (nodeId : Int) : Bool :=
  match s.cards.get cardId with
  | some card => cardAdministrativelyDead card || staleInFlight card nodeId
  | none => (mergedAliasIds s).contains cardId

def inPopulation (s : Snapshot) (consumed : List (Int × Int)) (n : Node) : Bool :=
  n.status = .pending && !n.tombstoned && !s.st.aborted n.id &&
    !consumed.contains (n.id, (n.attempt : Int)) && durableReceipts s n &&
    !endsItself s (n.idea.cardId.getD "") n.id

abbrev Build := String × Int

def Node.build (n : Node) : Build := (n.idea.cardId.getD "", n.id)

def siblings (s : Snapshot) (nodeId : Int) (consumed : List (Int × Int)) : List Build :=
  ((s.st.nodes.rows.mergeSort fun a b => decide (a.id ≤ b.id)).filter fun n =>
    n.id ≠ nodeId && inPopulation s consumed n).map Node.build

structure Population where
  board : Snapshot
  cards : List String := []
  nodes : List Int := []

def reopen (pop : Population) (build : Build) : Option Population :=
  if pop.cards.contains build.1 || pop.nodes.contains build.2 then none
  else (counterfactualOwnedCardState pop.board build.1 build.2).map fun board =>
    { board, cards := pop.cards ++ [build.1], nodes := pop.nodes ++ [build.2] }

def counterfactualOwnedSelectionState (s : Snapshot) (cardId : String) (nodeId : Int)
    (consumed : List (Int × Int)) : Option Population :=
  let consumed := nodeAttemptSet consumed
  if (s.st.nodes.get nodeId).any fun n => consumed.contains (nodeId, (n.attempt : Int)) then none
  else ((cardId, nodeId) :: siblings s nodeId consumed).foldlM reopen { board := s }

/-! ## The masked views -/

def speculativePolicyState (s : Snapshot) (ignored : List Int) (policy : Policy) : View :=
  let effective := effectivePolicyState s
  let hidden := ignored.filter fun i =>
    (effective.st.nodes.get i).any fun n => n.status = .pending && !n.tombstoned
  if policy.builtin = some .ashaPolicy then
    { board := if hidden.isEmpty then effective else effective.keepNodes fun n => !hidden.contains n.id }
  else { board := effective, hidden }

def reservedSpeculativeSlots (s : Snapshot) (excluded : List String) : Nat :=
  excluded.countP fun id =>
    match s.cards.get id with
    | some card => !cardAdministrativelyDead card && card.evidence.isEmpty
    | none => !(mergedAliasIds s).contains id

/-- `_asha_mask_is_unsound`: a masked root of rung 0 would read as a vacancy. -/
def ashaMaskIsUnsound (s : Snapshot) (policy : Policy) (ignored reopened : List Int) : Bool :=
  policy.builtin = some .ashaPolicy && reopened.isEmpty &&
    ignored.any fun i => (s.st.nodes.get i).any fun n => n.status = .pending && n.parentIds.isEmpty

def admissibleCards (rules : Rules) (s : Snapshot) (closed : List String) (envelope : Json) :
    List WorkCard :=
  (eligibleCards s).filter fun card =>
    !closed.contains card.id && cardGenerationFencesCurrent s card &&
      rules.cardFitsResourceEnvelope envelope card none

def maskedPromotionExpansions (s : Snapshot) (policy : Policy) (ignored : List Int) : List ActionKey :=
  if policy.builtin = some .ashaPolicy then
    (ignored.filterMap s.st.nodes.get).flatMap fun n =>
      if n.status = .pending && !n.tombstoned then n.parentIds.map fun p => ("improve", [p]) else []
  else []

def maskedAshaReservations (s : Snapshot) (policy : Policy) (excluded : List String)
    (ignored : List Int) : List ActionKey :=
  if policy.builtin = some .ashaPolicy then
    let owned := (ignored.filterMap s.st.nodes.get).filterMap fun n => n.idea.cardId
    ((excluded ++ owned).filterMap s.cards.get).filterMap cardKey ++
      maskedPromotionExpansions s policy ignored
  else []

/-! ## The query -/

def forcedNames : List Obj → List String → Bool → Option (List String × Bool)
  | [], ids, raw => some (ids, raw)
  | action :: actions, ids, raw =>
    match namedCard action with
    | none => forcedNames actions ids true
    | some (.str id) => if id = "" || ids.contains id then none else forcedNames actions (ids ++ [id]) raw
    | some _ => none

/-- The forced prefix as a lane: its staged cards, or itself where it is raw. -/
def forcedLane (admissible : List WorkCard) (excluded : List String) (forced : List Obj) :
    List WorkCard × List Obj :=
  match forcedNames forced [] false with
  | none => ([], [])
  | some (ids, raw) =>
    if raw then ([], if ids.isEmpty then forced else [])
    else
      let left := ids.filter fun id => !excluded.contains id
      match left.mapM fun id => admissible.find? (·.id = id) with
      | some cards => (cards, forced)
      | none => ([], [])

/-- The excluded cards that stay so: a reopened build is not kept from its own query. -/
def Population.closed (pop : Population) (ids : List String) : List String :=
  (cardIdSet ids).filter fun id => !pop.cards.contains id

def Population.masked (pop : Population) (ids : List Int) : List Int :=
  (nodeIdSet ids).filter fun id => !pop.nodes.contains id

section Query
variable (rules : Rules) (s : Snapshot) (policy : Policy) (maxNodes : Int) (ctx : Context)

def effectiveLimit (pop : Population) : Nat :=
  maxNodes.toNat - reservedSpeculativeSlots s (pop.closed ctx.excludedCardIds)

def admissible (pop : Population) : List WorkCard :=
  admissibleCards rules pop.board (pop.closed ctx.excludedCardIds ++ pop.closed ctx.refusedCardIds)
    ctx.resourceEnvelope

def discretionaryView (pop : Population) : View :=
  speculativePolicyState pop.board (pop.masked ctx.ignoredPendingNodeIds) policy

/-- The candidates of the discretionary lane: what a masked node is doing is not offered again. -/
def discretionaryCandidates (pop : Population) : List WorkCard :=
  let reserved := maskedAshaReservations pop.board policy (pop.closed ctx.excludedCardIds)
    (pop.masked ctx.ignoredPendingNodeIds)
  (admissible rules ctx pop).filter fun card => !(cardKey card).any (reserved.contains ·)

/-- `_speculative_selection` over a population. -/
def selectionOver (pop : Population) : List WorkCard × List Obj :=
  let limit := effectiveLimit s maxNodes ctx pop
  let masked := pop.masked ctx.ignoredPendingNodeIds
  match forcedCardActions pop.board policy limit masked with
  | some forced => forcedLane (admissible rules ctx pop) (pop.closed ctx.excludedCardIds) forced
  | none =>
    if ashaMaskIsUnsound pop.board policy masked pop.nodes then ([], [])
    else selectionAfterForcedGates rules pop.board policy limit ctx.scoring
      (discretionaryView policy ctx pop) (discretionaryCandidates rules policy ctx pop)

/-- The population a query is about: none reopened, or those of the subject it names. -/
def queried (cardId : Option String) (nodeId : Option Int) : Option Population :=
  match cardId, nodeId with
  | none, none => some { board := s }
  | some card, some node => counterfactualOwnedSelectionState s card node ctx.consumedInflight
  | _, _ => none

def speculativeSelection (cardId : Option String) (nodeId : Option Int) : List WorkCard × List Obj :=
  match queried s ctx cardId nodeId with
  | some pop => selectionOver rules s policy maxNodes ctx pop
  | none => ([], [])

def speculativeCardSelectionSet (cardId : Option String) (nodeId : Option Int) : List String :=
  (speculativeSelection rules s policy maxNodes ctx cardId nodeId).1.map WorkCard.id

def speculativeCardActions (cardId : Option String) (nodeId : Option Int) : List Obj :=
  let (selected, fallback) := speculativeSelection rules s policy maxNodes ctx cardId nodeId
  selected.filterMap (selectedAction policy fallback)

def RAW_CREATES : List String := ["draft", "improve", "debug", "merge"]

def stageable (action : Obj) : Bool :=
  !action.has META_CARD_ID && (action.get "kind").oneOf RAW_CREATES

def buildingMerges (excluded : List String) : List ActionKey :=
  ((excluded.filterMap s.cards.get).filter (·.operator = some "merge")).filterMap cardKey

/-- The fallback without what a masked node or an excluded crossover is already doing. -/
def rawLane (fallback : List Obj) : List Obj :=
  let expanded := maskedPromotionExpansions s policy (nodeIdSet ctx.ignoredPendingNodeIds)
  let merges := buildingMerges s (cardIdSet ctx.excludedCardIds)
  fallback.filter fun action =>
    !(actionKey action).any (expanded.contains ·) &&
      !((action.get "kind").eqStr "merge" && (actionKey action).any (merges.contains ·))

/-- `speculative_raw_actions`; it raises where a kind cannot be looked up in a set. -/
def speculativeRawActions : Option (List Obj) :=
  if policy.builtin.isNone then some [] else
  let (selected, fallback) := speculativeSelection rules s policy maxNodes ctx none none
  let lane := rawLane s policy ctx fallback
  if !selected.isEmpty || lane.isEmpty then some []
  else match lane.find? fun action => !stageable action with
    | some action =>
      if action.has META_CARD_ID || hashable (action.get "kind") then some [] else none
    | none =>
      some (lane.take (maxNodes.toNat - cardBudgetUsed s
        - reservedSpeculativeSlots s (cardIdSet ctx.excludedCardIds)))

def speculativeCardIsFresh (cardId : String) (nodeId : Int) : Bool :=
  match s.st.nodes.get nodeId, s.cards.get cardId with
  | some n, some card =>
    n.status = .pending && n.attempt = 0 && n.idea.cardId = some cardId &&
      rules.cardFitsResourceEnvelope ctx.resourceEnvelope card (some n) &&
      (speculativeCardSelectionSet rules s policy maxNodes ctx (some cardId) (some nodeId)).contains cardId
  | _, _ => false

end Query

end LoopLab.CardSelection
