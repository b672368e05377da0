import LoopLab.Fold.Log
import LoopLab.Ledger.Identity

/-!
# The rows of the board

The handlers of the board only collect bounded receipts; the cards are derived from them once the log is folded.
-/

set_option autoImplicit false

namespace LoopLab
open Lib

def CARD_STATEMENT_MAX_CHARS : Nat := 4000
def CARD_STATEMENT_MAX_UTF8_BYTES : Nat := 16000
def CARD_REPLAY_SOURCE_MAX : Nat := 64
def CARD_REPLAY_RATIONALE_MAX : Nat := 400
def CARD_REPLAY_MERGE_ALIASES_MAX : Nat := 256

def cardReplayText (v : Json) (maxChars : Nat) (stripped : Bool) : Option String :=
  (v.str?.filter (·.length ≤ maxChars)).bind fun s =>
    (some (if stripped then Py.strip s else s)).filter (· ≠ "")

/-- The text of a field, where its stripped form is not empty and short enough. -/
def strippedField (d : Obj) (field : String) (limit : Nat) : Option String :=
  (d.get field).str?.bind fun s => (some (Py.strip s)).filter fun t => t ≠ "" && t.length ≤ limit

section Receipts
variable (env : LedgerEnv)

def boundedCardAddedReceipt (d : Obj) : Option AddedRow :=
  let id := cardReplayId env.toEnv (d.get "id")
  let statement := cardReplayText (d.get "statement") CARD_STATEMENT_MAX_CHARS true
  if id.isNone && statement.isNone then none
  else some
    { id, statement
      source := cardReplayText (d.get "source") CARD_REPLAY_SOURCE_MAX true
      rationale := cardReplayText (d.get "rationale") CARD_REPLAY_RATIONALE_MAX false
      atNode := cardReplayNodeId (d.get "at_node")
      parent := (d.get "parent_card_id").str?.bind (cardId env)
      action := env.action d
      ownsAction := env.ownsAction d }

/-- The concepts a question is about; a row that names none says nothing of them. -/
def questionConcepts (d : Obj) : Concepts :=
  match ((d.getD "concepts" (d.get "concept_tags")).arr?.map env.conceptValues).filter (· ≠ []) with
  | some tags => { tags, source := .obj [("kind", .str "hypothesis_added")] }
  | none => {}

def hypothesisReceipt (d : Obj) : Option AddedRow := do
  let statement ← strippedField d "statement" CARD_STATEMENT_MAX_CHARS
  if CARD_STATEMENT_MAX_UTF8_BYTES < statement.utf8ByteSize then none else
  some
    { id := strippedField d "id" 256
      statement := some statement
      source := strippedField d "source" 64
      rationale := strippedField d "rationale" 400
      atNode := (d.get "at_node").int?.filter fun _ =>
        (d.get "at_node").boundedInt 0 CARD_REPLAY_NODE_ID_MAX
      parent := strippedField d "parent_belief_id" 256
      action := { concepts := questionConcepts env d } }

/-- `_bounded_card_merge_receipt`, stamped with the position of its row. -/
def boundedCardMergeReceipt (index : Nat) (d : Obj) : Option MergeRow := do
  let canonical ← cardReplayId env.toEnv (d.get "canonical")
  let raw ← (d.get "aliases").arr?
  let aliases := ((raw.take CARD_REPLAY_MERGE_ALIASES_MAX).filterMap (cardReplayId env.toEnv)).eraseDups
  if aliases.isEmpty then none else
  some
    { canonical, aliases
      statement := cardReplayText (d.get "statement") CARD_STATEMENT_MAX_CHARS true
      eventIndex := index }

/-- `_bounded_card_drop_receipt`, stamped with the position of its row. -/
def boundedCardDropReceipt (index : Nat) (d : Obj) : Option DropRow := do
  let id ← cardReplayId env.toEnv (d.get "id")
  let author := if (d.get "dropped_by").isNull || (d.get "dropped_by").eqStr "" then d.get "by"
    else d.get "dropped_by"
  some
    { id
      reason := cardReplayText (d.get "reason") CARD_REPLAY_RATIONALE_MAX false
      droppedBy := cardReplayText author CARD_REPLAY_SOURCE_MAX true
      eventIndex := index }

end Receipts

/-- `xs.append(x)` for a value that may be missing. -/
def appendSome {α : Type} (xs : List α) (x : Option α) : List α := xs ++ x.toList

section Handlers
variable (env : LedgerEnv) (b : CardBoard) (index : Nat) (d : Obj)

def onHypothesisMerged : CardBoard :=
  { b with hypothesesMerged := appendSome b.hypothesesMerged (boundedCardMergeReceipt env index d) }

def onHypothesisAdded : CardBoard :=
  match hypothesisReceipt env d with
  | none => b
  | some receipt =>
    { b with
      hypothesesAdded := b.hypothesesAdded ++ [receipt]
      hypothesesAbandoned := b.hypothesesAbandoned.erase
        (receipt.id.getD (hypothesisId env (receipt.statement.getD ""))) }

def onCardAdded : CardBoard :=
  { b with cardsAdded := appendSome b.cardsAdded (boundedCardAddedReceipt env d) }

def onCardMerged : CardBoard :=
  { b with cardsMerged := appendSome b.cardsMerged (boundedCardMergeReceipt env index d) }

def onCardDropped : CardBoard :=
  { b with cardsDropped := appendSome b.cardsDropped (boundedCardDropReceipt env index d) }

/-- The type of the row is the authority: an automatic drop is the engine's. -/
def onCardAutoDropped : CardBoard :=
  let receipt := boundedCardDropReceipt env index d
  { b with
    cardsDropped := appendSome b.cardsDropped
      (receipt.map fun r => { r with droppedBy := some "engine" }) }

def onCardReopened : CardBoard :=
  { b with cardsReopened := appendSome b.cardsReopened (boundedCardDropReceipt env index d) }

/-- The parent a filing names: a card, or none where it is an explicit null. -/
def filedParent : Option (Option String) :=
  match d.get "parent_card_id" with
  | .null => some none
  | v => (cardReplayId env.toEnv v).map some

def onCardFiled : CardBoard :=
  match cardReplayId env.toEnv (d.get "id"), filedParent env d with
  | some id, some parent =>
    if (d.get "source").eqStr "operator" && d.has "parent_card_id" then
      { b with cardFilings := Dict.set (Table.erase b.cardFilings id) id parent }
    else b
  | _, _ => b

/-- A name that is no string is kept by the source too, but is the name of no card. -/
def onHypothesisUpdated : CardBoard :=
  match (d.get "id").str?.filter (· ≠ "") with
  | none => b
  | some id =>
    if (d.get "status").eqStr "deleted" then
      { b with hypothesesDeleted :=
          if b.hypothesesDeleted.contains id then b.hypothesesDeleted else b.hypothesesDeleted ++ [id] }
    else if (d.get "status").eqStr "abandoned" then
      { b with hypothesesAbandoned :=
          if b.hypothesesAbandoned.contains id then b.hypothesesAbandoned
          else b.hypothesesAbandoned ++ [id] }
    else { b with hypothesesAbandoned := b.hypothesesAbandoned.erase id }

end Handlers

inductive BoardType where
  | hypothesisMerged | hypothesisAdded | hypothesisUpdated | cardAdded | cardMerged | cardDropped
  | cardAutoDropped | cardReopened | cardFiled
  deriving DecidableEq, Repr

namespace BoardType

def name : BoardType → String
  | hypothesisMerged => "hypothesis_merged"
  | hypothesisAdded => "hypothesis_added"
  | hypothesisUpdated => "hypothesis_updated"
  | cardAdded => "card_added"
  | cardMerged => "card_merged"
  | cardDropped => "card_dropped"
  | cardAutoDropped => "card_auto_dropped"
  | cardReopened => "card_reopened"
  | cardFiled => "card_filed"

def all : List BoardType :=
  [hypothesisMerged, hypothesisAdded, hypothesisUpdated, cardAdded, cardMerged, cardDropped,
   cardAutoDropped, cardReopened, cardFiled]

def ofName (s : String) : Option BoardType := all.find? (·.name = s)

theorem name_of_ofName {s : String} {t : BoardType} (h : ofName s = some t) : t.name = s := by
  simpa using List.find?_some h

theorem not_run (t : BoardType) : EventType.ofName t.name = none ∧ RowType.ofName t.name = none := by
  cases t <;> decide +kernel

end BoardType

def Event.boardRow (e : Event) : Option BoardType := BoardType.ofName e.type

/-- What the fold of a log holds for the board, with the position of the next row. -/
structure BoardState where
  log : LogState := {}
  board : CardBoard := {}
  index : Nat := 0

section Step
variable (env : LedgerEnv)

def handleBoard (b : CardBoard) (index : Nat) (d : Obj) : BoardType → CardBoard
  | .hypothesisMerged => onHypothesisMerged env b index d
  | .hypothesisAdded => onHypothesisAdded env b d
  | .hypothesisUpdated => onHypothesisUpdated b d
  | .cardAdded => onCardAdded env b d
  | .cardMerged => onCardMerged env b index d
  | .cardDropped => onCardDropped env b index d
  | .cardAutoDropped => onCardAutoDropped env b index d
  | .cardReopened => onCardReopened env b index d
  | .cardFiled => onCardFiled env b d

def boardStep (s : BoardState) (e : Event) : BoardState where
  log := logStep env.toEnv s.log e
  board := match e.boardRow with
    | some t => handleBoard env s.board s.index e.data t
    | none => s.board
  index := s.index + 1

def replayBoard (log : List Event) : BoardState := log.foldl (boardStep env) {}

end Step

theorem replayBoard_snoc (env : LedgerEnv) (log : List Event) (e : Event) :
    replayBoard env (log ++ [e]) = boardStep env (replayBoard env log) e := by
  simp [replayBoard]

theorem logStep_boardRow {env : Env} {s : LogState} {e : Event} {t : BoardType}
    (h : e.boardRow = some t) : logStep env s e = s := by
  obtain ⟨hkind, hrow⟩ := t.not_run
  rw [BoardType.name_of_ofName h] at hkind hrow
  rw [logStep_other hrow]
  unfold step stepWith Event.kind
  rw [hkind]

theorem log_replayBoard (env : LedgerEnv) (log : List Event) :
    (replayBoard env log).log = replayLog env.toEnv log := by
  induction log using List.reverseRecOn with
  | nil => rfl
  | append_singleton log e ih =>
    rw [replayBoard_snoc, replayLog_snoc, ← ih]
    rfl

end LoopLab
