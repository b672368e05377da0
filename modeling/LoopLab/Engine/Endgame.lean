import LoopLab.Lib.Search
import LoopLab.Selection.Election
import LoopLab.Selection.Pareto

/-!
# The reserve of a plan

Inside its reserve a plan spends its nodes on one ensemble and on the champion.
-/

set_option autoImplicit false

namespace LoopLab.Endgame
open Lib CardSelection

def META_SWEEP : String := "_sweep"

def META_CHOSEN : String := "_chosen"

def META_REASON : String := "_reason"

def ENDGAME_KINDS : List String := ["merge", "sweep"]

/-- A plan row as the reserve reads it; `none` stands for a phase without a list of kinds. -/
structure EndgamePlan where
  endgameStart : Int
  endgameEnd : Option Int
  phases : List (Option (List String))

/-- What the reserve reads; `cardsAdded` are the ids of the rows of `cards_added`. -/
structure Fold where
  board : Snapshot
  cardsAdded : List String := []

def inEndgame (plan : EndgamePlan) (totalNodes : Nat) : Bool :=
  plan.endgameStart ≤ totalNodes && plan.endgameEnd.all fun stop => decide ((totalNodes : Int) < stop)

def parentPair : Json → Option (Int × Int)
  | .arr [.int a, .int b] => if a = b then none else some (a, b)
  | _ => none

/-- `frozenset(pair)` -/
def unordered (pair : Int × Int) : Int × Int := (min pair.1 pair.2, max pair.1 pair.2)

/-- The work of an action: a kind or a parent that is not text, or not an integer, is none. -/
structure WorkIdentity where
  kind : Option String
  parents : List (Option Int)
  sweep : Bool
  deriving DecidableEq

def actionIdentity (action : Obj) : WorkIdentity where
  kind := (action.get "kind").str?
  parents :=
    match (action.get "kind").str? with
    | some "merge" => (parentPair (action.get "parent_ids")).elim [none] fun p => [some (unordered p).1, some (unordered p).2]
    | some "improve" | some "ablate" => [(action.get "parent_id").int?]
    | _ => []
  sweep := (action.get META_SWEEP).truthy

/-- `_LIVE_CARD_STATUSES` -/
def LIVE_CARD_STATUSES : List CardStatus := [.proposed, .building, .coded, .running]

def owns (card : WorkCard) : Bool :=
  LIVE_CARD_STATUSES.contains card.status && card.mergedInto.isNone && card.droppedReason.isNone

def isKind (action : Obj) (kind : String) : Bool := (action.get "kind").str? = some kind

section View
variable (f : Fold) (plan : EndgamePlan)

/-- `state.best()` -/
def best : Option Node := f.board.bestNodeId.bind f.board.st.nodes.get

def bestId : Option Int := (best f).map Node.id

def breedable : List Node := rankByMetric f.board (breedableNodes f.board)

def breedableIds : List Int := (breedable f).map Node.id

/-- The kinds of the last phase. -/
def kinds : List String :=
  match plan.phases.getLast? with
  | some (some (k :: ks)) => k :: ks
  | _ => ENDGAME_KINDS

/-- The pair is one of `merged_pairs`. -/
def paired (a b : Int) : Bool :=
  f.board.st.nodes.rows.any fun node =>
    node.operator.str? = some "merge" && node.parentIds.contains a && node.parentIds.contains b

/-- `order` of a card id: its last place in `cards_added`. -/
def addedAt (id : String) : Nat :=
  if f.cardsAdded.contains id then f.cardsAdded.length - 1 - f.cardsAdded.reverse.idxOf id else f.cardsAdded.eraseDups.length

/-- `live_merge_cards` of a pair -/
def liveMergeCards (pair : Int × Int) : List String :=
  ((f.board.cards.rows.filter fun card => card.operator = some "merge" && owns card &&
      (parentPair (.arr (card.parentIds.map .int))).map unordered = some (unordered pair)).map WorkCard.id).mergeSort
    fun a b => addedAt f a < addedAt f b || addedAt f a = addedAt f b && a ≤ b

def parentGraph : Dict Int (List Int) := f.board.st.nodes.image Prod.fst (fun node => (node.id, node.parentIds)) fun _ => rfl

def ancestors (nodeId : Int) : List Int := (gather (parentGraph f) [nodeId] []).filter (· ≠ nodeId)

def related (a b : Int) : Bool := (ancestors f b).contains a || (ancestors f a).contains b

/-- `merge_admissible`, for a card or for the reserve itself. -/
def mergeAdmissible (pair : Option (Int × Int)) (cardId : Option String) : Bool :=
  match pair with
  | none => false
  | some (a, b) =>
    if !(breedableIds f).contains a || !(breedableIds f).contains b then false
    else if related f a b then false
    else if paired f a b then false
    else match cardId with
      | none => (liveMergeCards f (a, b)).isEmpty
      | some id => (liveMergeCards f (a, b)).head?.all (· = id)

def candidate (node : Node) : Selection.Pareto.Candidate where
  id := node.id
  metric := node.metric
  extraMetrics := node.extraMetrics.image Prod.fst (fun row => (row.1, .float row.2)) fun _ => rfl
  extraMetricsProvenance := node.extraMetricsProvenance.image Prod.fst (fun row => (row.1, .str row.2)) fun _ => rfl
  extraMetricsDirection := node.extraMetricsDirection.image Prod.fst (fun row => (row.1, .str row.2)) fun _ => rfl

/-- `pareto_front(state, breedable)` -/
def frontIds : List Int :=
  (Selection.Pareto.paretoFront f.board.st.direction ((breedable f).map candidate)).map Selection.Pareto.Candidate.id

/-- The leader and its partners in the order of `merge_pick`, and whether they are the front's. -/
def mergeOrder : Option (Int × List Int × Bool) :=
  match breedableIds f, frontIds f with
  | _ :: _ :: _, leader :: partner :: front =>
    some (leader, partner :: front ++ (breedableIds f).filter (!(frontIds f).contains ·), true)
  | leader :: rest@(_ :: _), _ => some (leader, rest, false)
  | _, _ => none

structure MergePick where
  leader : Int
  partner : Int
  historical : Bool
  onFront : Bool

def mergePick : Option MergePick := do
  let (leader, order, onFront) ← mergeOrder f
  let (partner, rank) ← order.zipIdx.find? fun p => p.1 ≠ leader && mergeAdmissible f (some (leader, p.1)) none
  some ⟨leader, partner, rank = 0, onFront⟩

def mergeAction (pick : MergePick) : Obj :=
  [("kind", .str "merge"), ("parent_ids", .arr [.int pick.leader, .int pick.partner]), (META_CHOSEN, .int pick.leader),
    (META_REASON, .str (if pick.historical then
      if pick.onFront then "endgame: ensemble of the Pareto front's top-2" else "endgame: ensemble of the top-2"
    else "endgame: ensemble of the leader and its best partner outside its lineage that no merge has paired it with"))]

def championAction (sweep : Bool) (champion : Int) : Obj :=
  if sweep && (kinds plan).contains "sweep" then
    [("kind", .str "improve"), ("parent_id", .int champion), (META_SWEEP, .bool true), (META_CHOSEN, .int champion),
      (META_REASON, .str "endgame: champion sweep (k-NN surrogate)")]
  else
    [("kind", .str "improve"), ("parent_id", .int champion), (META_CHOSEN, .int champion),
      (META_REASON, .str "endgame: refine the champion")]

def mergedInReserve : Bool :=
  f.board.st.nodes.rows.any fun node => node.operator.str? = some "merge" && decide (plan.endgameStart ≤ node.id)

/-- The reserve's ensemble, while it is owed. -/
def owedPick : Option MergePick :=
  if (kinds plan).contains "merge" && !mergedInReserve f plan then mergePick f else none

def own (sweep : Bool) : Option Obj :=
  match owedPick f plan with
  | some pick => some (mergeAction pick)
  | none => (bestId f).map (championAction plan sweep)

def simplifyPasses : Bool :=
  !(own f plan false).any (isKind · "merge") &&
    !(bestId f).any fun champion => f.board.st.nodes.rows.any fun node =>
      decide (plan.endgameStart ≤ node.id) && node.simplified.any (·.parentId = champion)

def cardIsEndgameAction (action : Obj) : Bool :=
  match (action.get "kind").str? with
  | some "improve" => (bestId f).isSome && (action.get "parent_id").int? = bestId f
  | some "merge" => mergeAdmissible f (parentPair (action.get "parent_ids")) (some ((action.get META_CARD_ID).str?.getD ""))
  | _ => false

def admits (action : Obj) (sweep : Bool) : Bool :=
  if isKind action "evaluate" then true
  else if isKind action "simplify" then simplifyPasses f plan
  else if action.has META_CARD_ID && cardIsEndgameAction f action then true
  else match own f plan sweep with
    | none => true
    | some mine => !action.has META_CARD_ID && actionIdentity action = actionIdentity mine

end View

def Fold.totalNodes (f : Fold) : Nat := f.board.st.nodes.rows.length

def endgameAdmits (f : Fold) (plan : EndgamePlan) (action : Obj) (sweep : Bool) : Bool :=
  !inEndgame plan f.totalNodes || admits f plan action sweep

def endgameRefusedCardIds (f : Fold) (plan : EndgamePlan) : List String :=
  if !inEndgame plan f.totalNodes then []
  else (f.board.cards.rows.filter fun card => owns card && (cardAction card).any (!admits f plan · true)).map WorkCard.id

/-- The gate on a turn that no simplification passes. -/
def gateCreates (f : Fold) (plan : EndgamePlan) (actions : List Obj) (sweep : Bool) : List Obj :=
  match own f plan sweep with
  | none =>
    let kept := actions.filter fun a => a.has META_CARD_ID && cardIsEndgameAction f a
    if kept.isEmpty then actions else kept
  | some mine =>
    let kept := actions.filter fun a => a.has META_CARD_ID && admits f plan a sweep
    if kept.isEmpty then [mine] else kept

def endgameActions (f : Fold) (plan : EndgamePlan) (actions : List Obj) (sweep : Bool) : List Obj :=
  if !inEndgame plan f.totalNodes || actions.isEmpty then actions
  else if actions.any (isKind · "evaluate") then actions
  else if actions.any (isKind · "simplify") then
    if simplifyPasses f plan then actions else gateCreates f plan (actions.filter (!isKind · "simplify")) sweep
  else gateCreates f plan actions sweep

end LoopLab.Endgame
