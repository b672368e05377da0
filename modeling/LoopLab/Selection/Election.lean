import LoopLab.Ledger.Returns
import LoopLab.Lib.Checks

/-!
# The election

What an election reads, and whom it elects.
-/

set_option autoImplicit false

/-!
## What an election reads

The cards as work items, the nodes that spend the budget, and the cards that are eligible: ready by their receipts,
and live by the anchors of their operator.
-/

namespace LoopLab.CardSelection
open Lib

def META_CARD_ID : String := "_card_id"

inductive IdentityKind where
  | native | legacyHash | synthesizedShadow
  deriving DecidableEq, Repr

inductive ActionSource where
  | cardAdded | node | mixed | none
  deriving DecidableEq, Repr

inductive Freshness where
  | current | stale | unknown
  deriving DecidableEq, Repr

inductive OwnerState where
  | none | inFlight | terminal | mixed | unknown
  deriving DecidableEq, Repr

/-- `CardIdentityProvenance` -/
structure Identity where
  kind : IdentityKind := .synthesizedShadow
  durable : Bool := false
  receiptValid : Bool := false
  deriving DecidableEq, Repr

def Identity.owned : Identity := { kind := .native, durable := true, receiptValid := true }

/-- `CardSelectionProvenance` -/
structure Provenance where
  actionSource : ActionSource := .none
  actionOwnerCount : Nat := 0
  actionComplete : Bool := false
  freshness : Freshness := .unknown
  ownerState : OwnerState := .none
  deriving DecidableEq, Repr

def Provenance.claimable : Provenance where
  actionSource := .cardAdded
  actionOwnerCount := 1
  actionComplete := true
  freshness := .current
  ownerState := .none

/-- A card as the selection reads it; `payload` is what only the scorer and the resource rule read. -/
structure WorkCard where
  id : String
  operator : Option String := none
  parentId : Option Int := none
  parentIds : List Int := []
  parentGenerations : Option (Dict String Int) := none
  scoredAgainst : Option Int := none
  scoredAgainstGeneration : Option Int := none
  scoredAgainstEmpty : Bool := false
  pinned : Bool := false
  status : CardStatus := .proposed
  verdict : CardVerdict := .open
  actionable : Bool := true
  evidence : List Int := []
  bestDelta : Option Extended := none
  aliases : List String := []
  droppedReason : Option String := none
  mergedInto : Option String := none
  selectionReady : Bool := false
  selectionBlockers : List String := []
  identity : Identity := {}
  provenance : Provenance := {}
  conceptTags : List String := []
  payload : Obj := []

structure Snapshot where
  st : RunState
  builds : Builds := {}
  marks : Marks := {}
  bestNodeId : Option Int := none
  cards : Table WorkCard.id := Table.empty

def boundedNonnegativeInt (value : Json) (default : Nat) : Nat :=
  if value.isBool then default else
  match value.toInt with
  | some n => n.toNat
  | none => default

section Nodes
variable (s : Snapshot)

def nodeCountsTowardCardBudget (n : Node) : Bool :=
  !n.tombstoned && n.feasible && !s.st.breedExcluded.contains n.id &&
    !isUnevaluatedSpeculativeDiscard s.builds n

def cardBudgetUsed : Nat := s.st.nodes.rows.countP (nodeCountsTowardCardBudget s)

def feasibleNodes : List Node :=
  s.st.nodes.rows.filter fun n => n.status = .evaluated && !n.tombstoned && n.feasible &&
    n.metric.finiteMetric.isSome && !s.st.aborted n.id

def breedableNodes : List Node := (feasibleNodes s).filter (!s.st.breedExcluded.contains ·.id)

def pendingNodes : List Node :=
  (s.st.nodes.rows.filter fun n => n.status = .pending && !n.tombstoned).mergeSort
    fun a b => decide (a.id ≤ b.id)

def rankKey (n : Node) : List Rat := [n.metric.finiteMetric.getD 0, n.id]

def rankByMetric (nodes : List Node) : List Node :=
  if s.st.direction = "max" then nodes.mergeSort fun a b => !Py.tupleLt (rankKey a) (rankKey b)
  else nodes.mergeSort fun a b => !Py.tupleLt (rankKey b) (rankKey a)

end Nodes

def cardParentIds (card : WorkCard) : Option (List Int) :=
  let parents : Option (List Int) :=
    match card.parentId with
    | none => some card.parentIds
    | some p =>
      match card.parentIds with
      | [] => some [p]
      | q :: _ => if q ≠ p then none else some card.parentIds
  parents.filter fun ps => ps.all (0 ≤ ·) && decide ps.Nodup

def cardAction (card : WorkCard) : Option Obj := do
  let parents ← cardParentIds card
  match card.operator, parents with
  | some "draft", [] => some [("kind", .str "draft"), (META_CARD_ID, .str card.id)]
  | some "improve", [p] | some "expand", [p] =>
    some [("kind", .str "improve"), ("parent_id", .int p), (META_CARD_ID, .str card.id)]
  | some "merge", [p, q] =>
    some [("kind", .str "merge"), ("parent_ids", .arr [.int p, .int q]), (META_CARD_ID, .str card.id)]
  | _, _ => none

def strictlySelectionReady (card : WorkCard) : Bool :=
  card.selectionReady && card.selectionBlockers.isEmpty &&
    card.identity = Identity.owned && card.provenance = Provenance.claimable &&
    card.status = .proposed && card.verdict = .open && card.evidence.isEmpty &&
    card.droppedReason.isNone && card.mergedInto.isNone

/-- `card_score_fence_state` is `current`. -/
def scoreFenceCurrent (card : WorkCard) (anchor : Option Node) (anchorLive : Bool) : Bool :=
  match card.scoredAgainst with
  | none => card.scoredAgainstEmpty && card.scoredAgainstGeneration.isNone
  | some _ => anchorLive && anchor.any fun n => card.scoredAgainstGeneration = some (n.attempt : Int)

def cardGenerationFencesCurrent (s : Snapshot) (card : WorkCard) : Bool :=
  match cardParentIds card, card.parentGenerations with
  | some parents, some generations =>
    let anchor := card.scoredAgainst.bind s.st.nodes.get
    generations.rows.all (fun g => (parents.map toString).contains g.1) &&
      parents.all (fun p => generations.has (toString p)) &&
      parents.all (fun p => (s.st.nodes.get p).any fun parent =>
        !parent.tombstoned && !s.st.aborted p && generations.get (toString p) = some (parent.attempt : Int)) &&
      scoreFenceCurrent card anchor
        (anchor.any (!·.tombstoned) && !card.scoredAgainst.any s.st.aborted)
  | _, _ => false

def liveCardAction (breedable topTwo : List Int) (card : WorkCard) : Bool :=
  match cardParentIds card with
  | none => false
  | some parents =>
    if card.operator = some "draft" then parents.isEmpty
    else if card.operator = some "improve" || card.operator = some "expand" then
      parents.length = 1 && parents.all (breedable.contains ·)
    else if card.operator = some "merge" then
      parents.length = 2 && topTwo.length = 2 && parents.all (topTwo.contains ·) &&
        topTwo.all (parents.contains ·) && parents.all (breedable.contains ·)
    else false

def eligibleCards (s : Snapshot) : List WorkCard :=
  let breedable := breedableNodes s
  let breedableIds := breedable.map Node.id
  let topTwoIds := ((rankByMetric s breedable).take 2).map Node.id
  (s.cards.rows.mergeSort fun a b => decide (a.id ≤ b.id)).filter fun card =>
    strictlySelectionReady card && liveCardAction breedableIds topTwoIds card

theorem nodup_eligible (s : Snapshot) : ((eligibleCards s).map WorkCard.id).Nodup := by
  have hsorted : ((s.cards.rows.mergeSort fun a b => decide (a.id ≤ b.id)).map WorkCard.id).Nodup :=
    ((List.mergeSort_perm _ _).map WorkCard.id).nodup_iff.mpr s.cards.nodup
  exact hsorted.sublist (List.filter_sublist.map WorkCard.id)

/-- `_action_key`: what an action does, whoever asks for it. -/
def actionKey (action : Obj) : Option (String × List Int) :=
  match action.get "kind" with
  | .str "draft" => some ("draft", [])
  | .str "merge" => do
    let parents ← (action.get "parent_ids").arr?
    let ids ← parents.mapM Json.int?
    some ("merge", ids.mergeSort)
  | .str kind =>
    if kind = "improve" || kind = "debug" || kind = "ablate" then
      (action.get "parent_id").int?.map fun p => (kind, [p])
    else none
  | _ => none

def cardKey (card : WorkCard) : Option (String × List Int) := (cardAction card).bind actionKey

def namedCard (action : Obj) : Option Json := if action.has META_CARD_ID then some (action.get META_CARD_ID) else none

theorem namedCard_cardAction {card : WorkCard} {action : Obj} (h : cardAction card = some action) :
    namedCard action = some (.str card.id) := by
  unfold cardAction at h
  obtain ⟨parents, -, h⟩ := Option.bind_eq_some_iff.mp h
  split at h <;> first | cases h; rfl | cases h

end LoopLab.CardSelection

/-!
## The election

A forced prefix comes first: work in flight, a spent budget, missing seeds.
-/

namespace LoopLab.CardSelection
open Lib

abbrev ActionKey := String × List Int

abbrev CardScore := Rat × List Rat

inductive Builtin where
  | greedyTree | evolutionaryPolicy | mctsPolicy | ashaPolicy
  deriving DecidableEq, Repr

/-- What a policy is shown: a board, with the nodes whose pending work is hidden from it. -/
structure View where
  board : Snapshot
  hidden : List Int := []

/-- A policy by its attributes and methods. A hook answers what the coercion of its answer leaves. -/
structure Policy where
  builtin : Option Builtin := none
  attributes : Obj := []
  nextActions : View → Json
  cardScore : Option (Json → Snapshot → WorkCard → Option CardScore) := none
  cardSelect : Option (Snapshot → List WorkCard → Nat → Option (List (Option String))) := none

/-- The arithmetic of the built-in scorer and of the fit to the machine, which stay open. -/
structure Rules where
  cardScore : Json → Snapshot → List Obj → WorkCard → CardScore
  cardFitsResourceEnvelope : Json → WorkCard → Option Node → Bool

/-! ## The forced prefix -/

def seedTarget (policy : Policy) : Nat :=
  let knob (name : String) := boundedNonnegativeInt (policy.attributes.getD name (.int 0)) 0
  if knob "rung0" ≠ 0 then knob "rung0" else if knob "n_seeds" ≠ 0 then knob "n_seeds" else knob "pop"

def seeded (s : Snapshot) (policy : Policy) : Nat :=
  if policy.builtin = some .ashaPolicy then
    s.st.nodes.rows.countP fun n => n.parentIds.isEmpty && nodeCountsTowardCardBudget s n
  else cardBudgetUsed s

def readyDrafts (s : Snapshot) : List WorkCard :=
  (eligibleCards s).filter fun card => card.operator = some "draft"

def evaluateAction (n : Node) : Obj := [("kind", .str "evaluate"), ("node_id", .int n.id)]

def rawDraft : Obj := [("kind", .str "draft")]

def forcedCardActions (s : Snapshot) (policy : Policy) (limit : Nat) (ignored : List Int) :
    Option (List Obj) :=
  let pending := (pendingNodes s).filter fun n => !ignored.contains n.id
  let used := cardBudgetUsed s
  if !pending.isEmpty then some (pending.map evaluateAction)
  else if limit ≤ used then some []
  else if seeded s policy < seedTarget policy then
    let width := min (seedTarget policy - seeded s policy) (limit - used)
    let ready := ((readyDrafts s).filterMap cardAction).take width
    some (if ready.isEmpty then List.replicate width rawDraft else ready)
  else none

/-! ## What the policy decides -/

def Snapshot.keepNodes (s : Snapshot) (keep : Node → Bool) : Snapshot :=
  { s with st := { s.st with nodes := s.st.nodes.keep keep } }

/-- `_effective_policy_state`: the board without the nodes the budget does not count. -/
def effectivePolicyState (s : Snapshot) : Snapshot :=
  if s.st.nodes.rows.all (nodeCountsTowardCardBudget s) then s else
  let candidates := (breedableNodes s).filter (nodeCountsTowardCardBudget s)
  let kept := s.keepNodes (nodeCountsTowardCardBudget s)
  if s.bestNodeId.any kept.st.nodes.has then kept
  else { kept with bestNodeId := (rankByMetric s candidates).head?.map Node.id }

def policyFallback (policy : Policy) (view : View) : List Obj :=
  ((policy.nextActions view).arr?.getD []).filterMap Json.obj?

def ASHA_MAX_FAILED_PROMOTIONS : Nat := 2

/-- `asha_expansion`: the survivors with a child that lives, and those that failed too often. -/
def ashaExpansion (s : Snapshot) : List Int × List Int :=
  let live := (s.st.nodes.rows.filter (·.status ≠ .failed)).flatMap Node.parentIds
  let failed := (s.st.nodes.rows.filter (·.status = .failed)).flatMap Node.parentIds
  (live, failed.filter fun p => ASHA_MAX_FAILED_PROMOTIONS ≤ failed.count p && !live.contains p)

structure ASHALane where
  actionKeys : List ActionKey := []
  width : Nat := 0

def rungSurvivors (raw : Json) : Option (List Int) := do
  let ids ← (← raw.arr?).mapM Json.int?
  if ids.isEmpty || ids.any (· < 0) || !decide ids.Nodup then none else some ids

def ashaLane (board : Snapshot) : List Obj → ASHALane
  | [template] =>
    match actionKey template, template.get "_rung" with
    | none, _ => {}
    | some exact, .null => { actionKeys := [exact], width := 1 }
    | some _, .int rung =>
      match rungSurvivors (template.get "_promoted"), (template.get "parent_id").int? with
      | some survivors, some chosen =>
        let (live, retired) := ashaExpansion board
        let breedable := (breedableNodes board).map Node.id
        let legal := survivors.filter fun p =>
          breedable.contains p && !live.contains p && !retired.contains p
        if rung < 1 || !(template.get "kind").eqStr "improve" || !legal.contains chosen then {}
        else { actionKeys := legal.map fun p => ("improve", [p]), width := legal.length }
      | _, _ => {}
    | _, _ => {}
  | _ => {}

/-- `_protected_due_action`: the cadence an unpinned card may not replace. -/
def protectedDueAction : List Obj → Option ActionKey
  | [action] =>
    if (action.get "kind").eqStr "simplify" then
      (action.get "parent_id").int?.map fun p => ("simplify", [p])
    else
      let bandit := (action.get "_reason").str?.any fun reason => "bandit:".toList.isPrefixOf reason.toList
      (actionKey action).filter fun key => key.1 = "merge" || key.1 = "ablate" || bandit
  | _ => none

/-! ## The lane -/

def cardLaneWidth (policy : Policy) : Nat :=
  let explicit := policy.attributes.getD "card_select_k" (policy.attributes.get "card_lane_width")
  let orOne (name : String) := max 1 (boundedNonnegativeInt (policy.attributes.getD name (.int 1)) 1)
  if !explicit.isNull then max 1 (boundedNonnegativeInt explicit 1)
  else match policy.builtin with
    | some .evolutionaryPolicy => orOne "elite"
    | some .mctsPolicy => orOne "n_seeds"
    | _ => 1

def decidedWidth (policy : Policy) (board : Snapshot) (fallback : List Obj) : Nat :=
  if policy.builtin = some .ashaPolicy then (ashaLane board fallback).width else cardLaneWidth policy

def decidedCards (policy : Policy) (board : Snapshot) (fallback : List Obj) (cards : List WorkCard) :
    List WorkCard :=
  if policy.builtin = some .ashaPolicy then
    cards.filter fun card => (cardKey card).any ((ashaLane board fallback).actionKeys.contains ·)
  else match protectedDueAction fallback with
    -- an operator's pin outranks the cadence
    | some due => if cards.any WorkCard.pinned then cards else cards.filter (cardKey · = some due)
    | none => cards

def scoreForPolicy (rules : Rules) (policy : Policy) (s : Snapshot) (scoring : Json)
    (fallback : List Obj) (card : WorkCard) : Option CardScore :=
  match policy.cardScore with
  | some hook => hook scoring s card
  | none => if policy.builtin.isNone then none else some (rules.cardScore scoring s fallback card)

def CardScore.tuple (score : CardScore) : List Rat := score.1 :: score.2

def rankedCards (rules : Rules) (policy : Policy) (s : Snapshot) (scoring : Json)
    (fallback : List Obj) (cards : List WorkCard) : List WorkCard :=
  let scored := cards.filterMap fun card =>
    (scoreForPolicy rules policy s scoring fallback card).map (card, ·)
  let byId := scored.mergeSort fun a b => decide (a.1.id ≤ b.1.id)
  (byId.mergeSort fun a b => !Py.tupleLt (CardScore.tuple a.2) (CardScore.tuple b.2)).map Prod.fst

def diversityKey (card : WorkCard) : Option String × List Int × List String :=
  (card.operator, (cardParentIds card).getD [], Py.sortedSet card.conceptTags)

/-- `_default_select`: one of each niche, then the others in their order. -/
def defaultSelect (ranked : List WorkCard) (limit : Nat) : List WorkCard :=
  let niches := firstOfEach diversityKey ranked []
  (niches ++ ranked.filter fun card => !(niches.map WorkCard.id).contains card.id).take limit

def selectOnePerAction (ranked : List WorkCard) (limit : Nat) : List WorkCard :=
  (firstOfEach cardKey (ranked.filter fun card => (cardKey card).isSome) []).take limit

/-- The cards a hook names, up to the limit; a name that is not of the lane voids the choice. -/
def hookTaken (ranked : List WorkCard) (limit : Nat) : List (Option String) → List WorkCard → List WorkCard
  | [], selected => selected
  | item :: items, selected =>
    match item.bind fun id => ranked.find? (·.id = id) with
    | none => []
    | some card =>
      if (selected.map WorkCard.id).contains card.id then []
      else if limit ≤ selected.length + 1 then selected ++ [card]
      else hookTaken ranked limit items (selected ++ [card])

def hookSelect (policy : Policy) (s : Snapshot) (ranked : List WorkCard) (limit : Nat) :
    Option (List WorkCard) :=
  policy.cardSelect.map fun hook =>
    match hook s ranked limit with
    | some items => hookTaken ranked limit items []
    | none => []

def chosenCards (policy : Policy) (s : Snapshot) (ranked : List WorkCard) (limit : Nat) : List WorkCard :=
  let custom := hookSelect policy s ranked limit
  if policy.builtin = some .ashaPolicy then selectOnePerAction (custom.getD ranked) limit
  else custom.getD (defaultSelect ranked limit)

/-- `_selection_after_forced_gates` over the candidates: the cards and the policy's own actions. -/
def selectionAfterForcedGates (rules : Rules) (s : Snapshot) (policy : Policy) (limit : Nat)
    (scoring : Json) (view : View) (cards : List WorkCard) : List WorkCard × List Obj :=
  let fallback := policyFallback policy view
  let ranked := rankedCards rules policy s scoring fallback (decidedCards policy view.board fallback cards)
  let slots := min (min ranked.length (limit - cardBudgetUsed s)) (decidedWidth policy view.board fallback)
  -- no card left, none scored, a spent budget or a closed rung
  if slots = 0 then ([], fallback) else (chosenCards policy s ranked slots, fallback)

/-! ## The actions of a turn -/

def META_RUNG : String := "_rung"

/-- The one promotion of a rung, where the action is one of the promotions it stands for. -/
def promotionTemplate (policy : Policy) (action : Obj) : List Obj → Option Obj
  | [template] =>
    if policy.builtin = some .ashaPolicy && !(template.get META_RUNG).isNull &&
      (actionKey action).any (·.1 = "improve") then some template else none
  | _ => none

def auditFields (template : Obj) : Obj :=
  template.filter fun kv => "_".toList.isPrefixOf kv.1.toList && kv.1 ≠ META_CARD_ID

def policyMetadataForCardAction (policy : Policy) (action : Obj) (fallback : List Obj) : Obj :=
  match promotionTemplate policy action fallback with
  | some template => Obj.set "_chosen" (action.get "parent_id") (auditFields template)
  | none => ((fallback.find? fun legacy => actionKey legacy = actionKey action).map auditFields).getD []

/-- `d.update(e)` -/
def update (d e : Obj) : Obj := e.foldl (fun d kv => Obj.set kv.1 kv.2 d) d

def selectedAction (policy : Policy) (fallback : List Obj) (card : WorkCard) : Option Obj :=
  (cardAction card).map fun action => update action (policyMetadataForCardAction policy action fallback)

def CREATES : List String := ["draft", "improve", "debug", "merge", "ablate", "simplify"]

def creates (action : Obj) : Bool := (action.get "kind").oneOf CREATES

def hashable : Json → Bool
  | .arr _ | .obj _ => false
  | _ => true

/-- The actions of the policy, the creating ones up to what remains of the budget. -/
def boundedActions (remaining : Nat) : List Obj → Nat → List Obj
  | [], _ => []
  | action :: actions, claimed =>
    if creates action then
      if remaining ≤ claimed then boundedActions remaining actions claimed
      else action :: boundedActions remaining actions (claimed + 1)
    else action :: boundedActions remaining actions claimed

def cardIdSet (values : List String) : List String := (values.filter (· ≠ "")).eraseDups

def serialCandidates (s : Snapshot) (refused : List String) : List WorkCard :=
  (eligibleCards s).filter fun card => !(cardIdSet refused).contains card.id

/-- `card_next_actions`; it raises where an action of the policy has no kind a set can hold. -/
def cardNextActions (rules : Rules) (s : Snapshot) (policy : Policy) (maxNodes : Int) (scoring : Json)
    (refused : List String) : Option (List Obj) :=
  let limit := maxNodes.toNat
  match forcedCardActions s policy limit [] with
  | some forced => some forced
  | none =>
    let view : View := { board := effectivePolicyState s }
    let (selected, fallback) :=
      selectionAfterForcedGates rules s policy limit scoring view (serialCandidates s refused)
    let actions := selected.filterMap (selectedAction policy fallback)
    let remaining := limit - cardBudgetUsed s
    if !actions.isEmpty then some actions
    else if !fallback.all fun action => hashable (action.get "kind") then none
    else
      let bounded := boundedActions remaining fallback 0
      if !bounded.isEmpty then some bounded
      else if 0 < remaining then some [rawDraft] else some []

end LoopLab.CardSelection
