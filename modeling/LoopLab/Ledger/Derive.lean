import LoopLab.Lib.Peel
import LoopLab.Ledger.Status
import LoopLab.Fold.Board
import Mathlib.Data.List.Sort

/-!
# The published board

The lineage of the cards and the board that is published.
-/

set_option autoImplicit false

/-!
## The lineage of cards

The declared parents of the cards, resolved and cut back to a forest: the edges of cycles go, and so do those of
cards too far below a root.
-/

namespace LoopLab
open Lib

def CARD_CHILD_LIMIT : Nat := 256
def CARD_LINEAGE_MAX_DEPTH : Nat := 16

section Lineage
variable (canon : String → String)

def declaredEdge (cards : Cards) (c : Card) : Option (String × String) := do
  let raw ← c.parentCardId.filter (· ≠ "")
  let target := canon raw
  if !cards.has target || target = canon c.id then none else some (c.id, target)

theorem declaredEdge_key (cards : Cards) (c : Card) (e : String × String)
    (h : declaredEdge canon cards c = some e) : e.1 = c.id := by
  unfold declaredEdge at h
  obtain ⟨raw, -, h⟩ := Option.bind_eq_some_iff.mp h
  dsimp only at h
  split at h
  · cases h
  · cases h
    rfl

def declaredEdges (cards : Cards) : Dict String String :=
  cards.collect Prod.fst (declaredEdge canon cards) (declaredEdge_key canon cards)

/-- How many cards stand in the chain from one on, up to the fuel and to the first on a cycle. -/
def chainDepth (declared : Dict String String) (onCycle : List String) : Nat → String → Nat
  | 0, _ => 0
  | fuel + 1, id =>
    if onCycle.contains id then 0 else
    match declared.get id with
    | some target => chainDepth declared onCycle fuel target + 1
    | none => 1

def keptEdge (declared : Dict String String) (onCycle : List String) (id : String) : Option String :=
  (declared.get id).filter fun target =>
    !onCycle.contains id &&
      chainDepth declared onCycle CARD_LINEAGE_MAX_DEPTH target < CARD_LINEAGE_MAX_DEPTH

def childrenOf (cards : Cards) (parent : Card → Option String) (id : String) : List String :=
  ((cards.rows.filter fun c => (parent c).filter (· ≠ "") = some id).map Card.id).mergeSort

/-- `_apply_card_lineage`, as far as the edges go. -/
def applyCardLineage (cards : Cards) : Cards :=
  let declared := declaredEdges canon cards
  let onCycle := peeledCycles declared
  let parent := fun c : Card => keptEdge declared onCycle c.id
  cards.mapRows
    (fun c => { c with
      parentCardId := parent c
      childCardIds := (childrenOf cards parent c.id).take CARD_CHILD_LIMIT })
    fun _ => rfl

end Lineage

end LoopLab

/-!
## The published board

The cards are linked, merged, judged, tied to the cards they retry and to the questions they are
filed under, and at last the deleted ones are taken away.
-/

namespace LoopLab
open Lib

section Edges
variable (env : LedgerEnv) (st : RunState) (canon : String → String) (cards : Cards)

def ownerCardOf (id : Int) : Option String :=
  ((st.nodes.get id).bind fun n => n.idea.cardId.filter (· ≠ "")).map canon

def retriedNode (c : Card) : Option Int :=
  if c.action.operator ≠ some "debug" then none else
  match c.action.parentIds, c.action.parentId with
  | [p], _ => some p
  | [], some p => some p
  | _, _ => none

def retriedCard (c : Card) : Option String :=
  ((retriedNode c).bind (ownerCardOf st canon)).filter fun owner =>
    owner ≠ canon c.id && cards.has owner

/-- `_apply_card_belief_lineage`, as far as the retry goes. -/
def applyCardBeliefLineage : Cards :=
  cards.mapRows (fun c => { c with retryOf := retriedCard st canon cards c }) fun _ => rfl

def fileCard (cards : Cards) (filing : String × Option String) : Cards :=
  match (cardId env filing.1).bind fun id => cards.get (canon id) with
  | none => cards
  | some c => cards.put { c with parentCardId := filing.2.filter (· ≠ "") }

/-- `_apply_card_operator_overlays`, as far as the filings go: a later one stands. -/
def applyCardFilings (board : CardBoard) : Cards :=
  board.cardFilings.rows.foldl (fileCard env canon) cards

def publishVisibleCards (board : CardBoard) (controlIds : String → List String) : Cards :=
  cards.collect Card.id
    (fun c => if (controlIds c.id).any (board.hypothesesDeleted.contains ·) then none else some c)
    (by
      intro c d h
      split at h
      · cases h
      · cases h
        rfl)

end Edges

section Derive
variable (env : LedgerEnv) (inputs : CardInputs)

def unmergedLedger : CardLedger :=
  linkedLedger env (cardIdentityMap env inputs.st inputs.board) inputs.st inputs.board

structure MergedLedger where
  aliases : CardAliases
  cards : Cards
  controlIds : String → List String

def mergedLedger : MergedLedger :=
  let identity := cardIdentityMap env inputs.st inputs.board
  let linked := unmergedLedger env inputs
  let aliases := cardMergeAliases env identity inputs.board
  { aliases
    cards := foldMergedCards inputs.st aliases linked
    controlIds := mergedControlIds env identity aliases linked }

def buildingCards (m : MergedLedger) : Dict String (List Int) :=
  cardBuildingIds env inputs m.aliases.canon m.cards

/-- The cards judged, after the return of the forgiven builds or without it. -/
def judgedCards (m : MergedLedger) (returns : Bool) : Cards :=
  let building := buildingCards env inputs m
  let marked := markForgiven env inputs m.cards
  let returned := if returns then applyCardReturns env inputs marked building else marked
  applyCardStatus inputs (applyCardVerdicts env inputs returned m.controlIds)
    (droppedCards env m.aliases inputs.board) building

def tiedCards (m : MergedLedger) (cards : Cards) : Cards :=
  applyCardLineage m.aliases.canon
    (applyCardFilings env m.aliases.canon
      (applyCardBeliefLineage inputs.st m.aliases.canon cards) inputs.board)

/-- The phases of `derive_cards` past the merges. -/
def finishedCards (m : MergedLedger) (returns : Bool) : Cards :=
  publishVisibleCards (tiedCards env inputs m (judgedCards env inputs m returns)) inputs.board
    m.controlIds

def deriveCards : Cards := finishedCards env inputs (mergedLedger env inputs) true

/-- What the cards of a log are derived from: the finished fold and the rows of the board. -/
def cardInputs (s : BoardState) : CardInputs where
  st := (finalizeFold env.floats env.toEnv s.log.run).st
  builds := s.log.builds
  buildings := s.log.run.marks.buildings
  board := s.board

def foldedCards (log : List Event) : Cards := deriveCards env (cardInputs env (replayBoard env log))

end Derive

end LoopLab
