import LoopLab.Ledger.Names
import LoopLab.Ledger.Derive

/-!
# Merges lose no evidence and come in no order

The merge of the cards keeps the nodes that are evidence, each of one card.
-/

set_option autoImplicit false

namespace LoopLab
open Lib

/-! ## Aliases that find the same -/

/-- The card without its display statement. -/
def Card.unworded (c : Card) : Card := { c with statement := "" }

def Cards.unworded (cards : Cards) : Cards := cards.mapRows Card.unworded fun _ => rfl

structure SameAliases (a a' : CardAliases) : Prop where
  aliasOf : a.aliasOf.get = a'.aliasOf.get
  bridges : a.identityAlias = a'.identityAlias

section Same
variable {st : RunState} {a a' : CardAliases} {L : CardLedger} {tid : String}

theorem SameAliases.canon (h : SameAliases a a') : a.canon = a'.canon :=
  funext (chase_congr h.aliasOf)

theorem SameAliases.members (h : SameAliases a a') : mergeMembers a L tid = mergeMembers a' L tid := by
  unfold mergeMembers
  rw [h.canon]

theorem SameAliases.actionOwner (h : SameAliases a a') :
    mergeActionOwner a L tid = mergeActionOwner a' L tid := by
  unfold mergeActionOwner
  rw [h.members]

theorem SameAliases.memberAliases (h : SameAliases a a') :
    memberAliases a L tid = memberAliases a' L tid := by
  unfold LoopLab.memberAliases
  rw [h.members]

theorem SameAliases.looseAliases (h : SameAliases a a') (x : String) :
    x ∈ looseAliases a L tid ↔ x ∈ looseAliases a' L tid := by
  unfold LoopLab.looseAliases
  rw [List.mem_filter, List.mem_filter, Dict.mem_keys, Dict.mem_keys, h.aliasOf, h.canon, h.bridges,
    h.memberAliases]

theorem sortedSet_congr {xs ys : List String} (h : ∀ x, x ∈ xs ↔ x ∈ ys) :
    Py.sortedSet xs = Py.sortedSet ys := linearBool_string.set_congr h

theorem SameAliases.names (h : SameAliases a a') :
    Py.sortedSet (LoopLab.memberAliases a L tid ++ LoopLab.looseAliases a L tid) =
      Py.sortedSet (LoopLab.memberAliases a' L tid ++ LoopLab.looseAliases a' L tid) := by
  apply sortedSet_congr
  intro x
  rw [List.mem_append, List.mem_append, h.memberAliases, h.looseAliases]

theorem SameAliases.targets (h : SameAliases a a') : mergeTargets a L = mergeTargets a' L := by
  unfold mergeTargets
  rw [h.canon]

theorem SameAliases.isEmpty (h : SameAliases a a') :
    a.aliasOf.rows.isEmpty = a'.aliasOf.rows.isEmpty := Dict.isEmpty_congr h.aliasOf

theorem SameAliases.group (h : SameAliases a a') :
    (mergeGroup st a L tid).map Card.unworded = (mergeGroup st a' L tid).map Card.unworded := by
  unfold mergeGroup mergeBase
  rw [h.actionOwner, h.members, h.names]
  cases (L.cards.get tid).or (mergeActionOwner a' L tid) with
  | none => rfl
  | some base =>
    cases mergeActionOwner a' L tid with
    | none => rfl
    | some owner => rfl

theorem SameAliases.group_worded (h : SameAliases a a') (hstmt : a.mergedStmt = a'.mergedStmt) :
    mergeGroup st a L tid = mergeGroup st a' L tid := by
  unfold mergeGroup mergeBase
  rw [h.actionOwner, h.members, h.names, hstmt]

theorem SameAliases.cards_worded (h : SameAliases a a') (hstmt : a.mergedStmt = a'.mergedStmt) :
    foldMergedCards st a L = foldMergedCards st a' L := by
  have hgroup : mergeGroup st a L = mergeGroup st a' L := funext fun _ => h.group_worded hstmt
  apply Table.ext
  unfold foldMergedCards
  rw [h.isEmpty]
  cases a'.aliasOf.rows.isEmpty with
  | true => rfl
  | false =>
    show (mergeTargets a L).filterMap (mergeGroup st a L) =
      (mergeTargets a' L).filterMap (mergeGroup st a' L)
    rw [h.targets, hgroup]

theorem SameAliases.cards (h : SameAliases a a') :
    (foldMergedCards st a L).unworded = (foldMergedCards st a' L).unworded := by
  apply Table.ext
  show (foldMergedCards st a L).rows.map Card.unworded = (foldMergedCards st a' L).rows.map Card.unworded
  unfold foldMergedCards
  rw [h.isEmpty]
  cases a'.aliasOf.rows.isEmpty with
  | true => rfl
  | false =>
    show ((mergeTargets a L).filterMap (mergeGroup st a L)).map Card.unworded =
      ((mergeTargets a' L).filterMap (mergeGroup st a' L)).map Card.unworded
    rw [List.map_filterMap, List.map_filterMap, h.targets]
    apply List.filterMap_congr
    intro x _
    exact h.group

theorem SameAliases.controlIds (h : SameAliases a a') (env : LedgerEnv) (identity : CardIdentity) :
    mergedControlIds env identity a L = mergedControlIds env identity a' L := by
  funext x
  unfold mergedControlIds
  rw [h.isEmpty, h.members]
  cases a'.aliasOf.rows.isEmpty with
  | true => rfl
  | false =>
    apply sortedSet_congr
    intro y
    rw [List.mem_append, List.mem_append, List.mem_filter, List.mem_filter, List.mem_cons,
      List.mem_cons, h.looseAliases]

end Same

/-! ## The order of the merge rows -/

def MergeRow.unplaced (r : MergeRow) : MergeRow := { r with eventIndex := 0 }

section Rows
variable {env : LedgerEnv} {identity : CardIdentity} {board board' : CardBoard}

structure SameMergeRows (board board' : CardBoard) : Prop where
  native : (board.cardsMerged.map MergeRow.unplaced).Perm (board'.cardsMerged.map MergeRow.unplaced)
  shadow : (board.hypothesesMerged.map MergeRow.unplaced).Perm
    (board'.hypothesesMerged.map MergeRow.unplaced)

theorem flatMap_nativeFirst {α β : Type} (native shadow : List α) (f : Bool × α → List β) :
    (nativeFirst native shadow).flatMap f =
      (native.flatMap fun r => f (true, r)) ++ shadow.flatMap fun r => f (false, r) := by
  unfold nativeFirst
  rw [List.flatMap_append, List.flatMap_map, List.flatMap_map]

theorem mergePairs_perm (native : Bool) {rows rows' : List MergeRow}
    (h : (rows.map MergeRow.unplaced).Perm (rows'.map MergeRow.unplaced)) :
    (rows.flatMap fun r => mergePairs env identity (native, r)).Perm
      (rows'.flatMap fun r => mergePairs env identity (native, r)) := by
  have hplace (rows : List MergeRow) : (rows.flatMap fun r => mergePairs env identity (native, r)) =
      (rows.map MergeRow.unplaced).flatMap fun r => mergePairs env identity (native, r) := by
    rw [List.flatMap_map]
    rfl
  rw [hplace rows, hplace rows']
  exact h.flatMap_right _

theorem sameAliases_of_rows (h : SameMergeRows board board') :
    SameAliases (cardMergeAliases env identity board) (cardMergeAliases env identity board') where
  bridges := rfl
  aliasOf := by
    have hpairs : ((nativeFirst board.cardsMerged board.hypothesesMerged).flatMap
        (mergePairs env identity)).Perm
        ((nativeFirst board'.cardsMerged board'.hypothesesMerged).flatMap (mergePairs env identity)) := by
      rw [flatMap_nativeFirst, flatMap_nativeFirst]
      exact (mergePairs_perm true h.native).append (mergePairs_perm false h.shadow)
    funext x
    show ((identityBridges identity).update _).get x = ((identityBridges identity).update _).get x
    rw [Dict.get_update, Dict.get_update]
    congr 1
    exact Dict.get_offers_perm linearBool_string.least_comm linearBool_string.least_assoc hpairs _ x

end Rows

/-! ## Logs -/

def Event.isMerge (e : Event) : Bool :=
  e.boardRow = some .cardMerged || e.boardRow = some .hypothesisMerged

def Event.isDrop (e : Event) : Bool :=
  e.boardRow = some .cardDropped || e.boardRow = some .cardAutoDropped ||
    e.boardRow = some .cardReopened

/-- A merge row that carries no statement to display. -/
def Event.wordlessMerge (e : Event) : Bool :=
  e.isMerge && (cardReplayText (e.data.get "statement") CARD_STATEMENT_MAX_CHARS true).isNone

def BoardState.unmerged (s : BoardState) : BoardState where
  log := s.log
  board := { s.board with cardsMerged := [], hypothesesMerged := [] }

section Logs
variable {env : LedgerEnv}

theorem isDrop_false {e : Event} {t : BoardType} (h : e.boardRow = some t) (hdrop : e.isDrop = false) :
    t ≠ .cardDropped ∧ t ≠ .cardAutoDropped ∧ t ≠ .cardReopened := by
  unfold Event.isDrop at hdrop
  rw [h] at hdrop
  simpa [not_or, and_assoc] using hdrop

theorem boardStep_merge {s : BoardState} {e : Event} (h : e.isMerge = true) :
    (boardStep env s e).unmerged = s.unmerged := by
  unfold Event.isMerge at h
  rcases Bool.or_eq_true_iff.mp h with h | h
  · have hrow : e.boardRow = some .cardMerged := of_decide_eq_true h
    unfold boardStep BoardState.unmerged
    rw [logStep_boardRow hrow, hrow]
    rfl
  · have hrow : e.boardRow = some .hypothesisMerged := of_decide_eq_true h
    unfold boardStep BoardState.unmerged
    rw [logStep_boardRow hrow, hrow]
    rfl

theorem boardStep_unmerged {s : BoardState} {e : Event} (h : e.isDrop = false) :
    (boardStep env s e).unmerged = (boardStep env s.unmerged e).unmerged := by
  unfold boardStep
  cases hrow : e.boardRow with
  | none => rfl
  | some t =>
    obtain ⟨hdrop, hauto, hreopen⟩ := isDrop_false hrow h
    cases t with
    | cardDropped => exact absurd rfl hdrop
    | cardAutoDropped => exact absurd rfl hauto
    | cardReopened => exact absurd rfl hreopen
    | hypothesisAdded =>
      simp only [handleBoard, onHypothesisAdded]
      cases hypothesisReceipt env e.data <;> rfl
    | hypothesisUpdated =>
      simp only [handleBoard, onHypothesisUpdated]
      cases (e.data.get "id").str?.filter (· ≠ "") with
      | none => rfl
      | some id =>
        dsimp only
        split
        · rfl
        · split <;> rfl
    | cardFiled =>
      simp only [handleBoard, onCardFiled]
      cases cardReplayId env.toEnv (e.data.get "id") with
      | none => rfl
      | some id =>
        cases filedParent env e.data with
        | none => rfl
        | some parent =>
          dsimp only
          split <;> rfl
    | hypothesisMerged => rfl
    | cardAdded => rfl
    | cardMerged => rfl

theorem replayBoard_unmerged {log : List Event} (h : ∀ e ∈ log, e.isDrop = false) :
    (replayBoard env log).unmerged = (replayBoard env (log.filter (!·.isMerge))).unmerged := by
  induction log using List.reverseRecOn with
  | nil => rfl
  | append_singleton log e ih =>
    have ih := ih fun x hx => h x (List.mem_append_left _ hx)
    have he := h e (by simp)
    rw [List.filter_append, replayBoard_snoc]
    cases hm : e.isMerge with
    | true =>
      rw [boardStep_merge hm, ih]
      simp [hm]
    | false =>
      rw [boardStep_unmerged he, ih, ← boardStep_unmerged he, ← replayBoard_snoc]
      simp [hm]

structure KeepsRows (b b' : CardBoard) : Prop where
  cardsMerged : b'.cardsMerged = b.cardsMerged
  hypothesesMerged : b'.hypothesesMerged = b.hypothesesMerged
  cardsDropped : b'.cardsDropped = b.cardsDropped
  cardsReopened : b'.cardsReopened = b.cardsReopened

theorem KeepsRows.hypothesisAdded (b : CardBoard) (d : Obj) : KeepsRows b (onHypothesisAdded env b d) := by
  unfold onHypothesisAdded
  split <;> exact ⟨rfl, rfl, rfl, rfl⟩

theorem KeepsRows.hypothesisUpdated (b : CardBoard) (d : Obj) : KeepsRows b (onHypothesisUpdated b d) := by
  unfold onHypothesisUpdated
  split
  · exact ⟨rfl, rfl, rfl, rfl⟩
  · split
    · exact ⟨rfl, rfl, rfl, rfl⟩
    · split <;> exact ⟨rfl, rfl, rfl, rfl⟩

theorem KeepsRows.cardFiled (b : CardBoard) (d : Obj) : KeepsRows b (onCardFiled env b d) := by
  unfold onCardFiled
  split
  · split <;> exact ⟨rfl, rfl, rfl, rfl⟩
  · exact ⟨rfl, rfl, rfl, rfl⟩

def mergeReceiptOf (env : LedgerEnv) (t : BoardType) (e : Event) : Option MergeRow :=
  if e.boardRow = some t then boundedCardMergeReceipt env 0 e.data else none

theorem unplaced_receipt (index : Nat) (d : Obj) :
    (boundedCardMergeReceipt env index d).map MergeRow.unplaced = boundedCardMergeReceipt env 0 d := by
  unfold boundedCardMergeReceipt
  cases cardReplayId env.toEnv (d.get "canonical") with
  | none => rfl
  | some canonical =>
    cases (d.get "aliases").arr? with
    | none => rfl
    | some raw =>
      simp only [Option.bind_eq_bind, Option.bind_some]
      split <;> rfl

theorem map_appendSome {α β : Type} (f : α → β) (xs : List α) (x : Option α) :
    (appendSome xs x).map f = xs.map f ++ (x.map f).toList := by
  unfold appendSome
  rw [List.map_append]
  cases x <;> rfl

theorem mergeRows_replayBoard (env : LedgerEnv) (log : List Event) :
    (replayBoard env log).board.cardsMerged.map MergeRow.unplaced =
        log.filterMap (mergeReceiptOf env .cardMerged) ∧
      (replayBoard env log).board.hypothesesMerged.map MergeRow.unplaced =
        log.filterMap (mergeReceiptOf env .hypothesisMerged) := by
  induction log using List.reverseRecOn with
  | nil => exact ⟨rfl, rfl⟩
  | append_singleton log e ih =>
    obtain ⟨hnative, hshadow⟩ := ih
    have hsnoc (t : BoardType) : (log ++ [e]).filterMap (mergeReceiptOf env t) =
        log.filterMap (mergeReceiptOf env t) ++ (mergeReceiptOf env t e).toList := by
      rw [List.filterMap_append]
      cases h : mergeReceiptOf env t e <;> simp [h]
    rw [hsnoc, hsnoc, ← hnative, ← hshadow, replayBoard_snoc]
    unfold mergeReceiptOf boardStep
    cases hrow : e.boardRow with
    | none => simp
    | some t =>
      have hkeeps {b : CardBoard} (hb : KeepsRows (replayBoard env log).board b) (hn : t ≠ .cardMerged)
          (hs : t ≠ .hypothesisMerged) : b.cardsMerged.map MergeRow.unplaced =
            (replayBoard env log).board.cardsMerged.map MergeRow.unplaced ++
              (if some t = some BoardType.cardMerged then
                boundedCardMergeReceipt env 0 e.data else none).toList ∧
          b.hypothesesMerged.map MergeRow.unplaced =
            (replayBoard env log).board.hypothesesMerged.map MergeRow.unplaced ++
              (if some t = some BoardType.hypothesisMerged then
                boundedCardMergeReceipt env 0 e.data else none).toList := by
        rw [hb.cardsMerged, hb.hypothesesMerged]
        simp [hn, hs]
      cases t with
      | cardMerged =>
        constructor
        · show (appendSome _ _).map _ = _
          rw [map_appendSome, unplaced_receipt]
          rfl
        · simp [handleBoard, onCardMerged]
      | hypothesisMerged =>
        constructor
        · simp [handleBoard, onHypothesisMerged]
        · show (appendSome _ _).map _ = _
          rw [map_appendSome, unplaced_receipt]
          rfl
      | hypothesisAdded => exact hkeeps (.hypothesisAdded _ _) (by decide) (by decide)
      | hypothesisUpdated => exact hkeeps (.hypothesisUpdated _ _) (by decide) (by decide)
      | cardFiled => exact hkeeps (.cardFiled _ _) (by decide) (by decide)
      | cardAdded => simp [handleBoard, onCardAdded]
      | cardDropped => simp [handleBoard, onCardDropped]
      | cardAutoDropped => simp [handleBoard, onCardAutoDropped]
      | cardReopened => simp [handleBoard, onCardReopened]

theorem dropRows_replayBoard (env : LedgerEnv) {log : List Event} (h : ∀ e ∈ log, e.isDrop = false) :
    (replayBoard env log).board.cardsDropped = [] ∧ (replayBoard env log).board.cardsReopened = [] := by
  induction log using List.reverseRecOn with
  | nil => exact ⟨rfl, rfl⟩
  | append_singleton log e ih =>
    obtain ⟨hdropped, hreopened⟩ := ih fun x hx => h x (List.mem_append_left _ hx)
    have he := h e (by simp)
    have hkeeps {b : CardBoard} (hb : KeepsRows (replayBoard env log).board b) :
        b.cardsDropped = [] ∧ b.cardsReopened = [] :=
      ⟨hb.cardsDropped.trans hdropped, hb.cardsReopened.trans hreopened⟩
    rw [replayBoard_snoc]
    unfold boardStep
    cases hrow : e.boardRow with
    | none => exact ⟨hdropped, hreopened⟩
    | some t =>
      obtain ⟨hdrop, hauto, hreopen⟩ := isDrop_false hrow he
      cases t with
      | cardDropped => exact absurd rfl hdrop
      | cardAutoDropped => exact absurd rfl hauto
      | cardReopened => exact absurd rfl hreopen
      | hypothesisAdded => exact hkeeps (.hypothesisAdded _ _)
      | hypothesisUpdated => exact hkeeps (.hypothesisUpdated _ _)
      | cardFiled => exact hkeeps (.cardFiled _ _)
      | hypothesisMerged => exact ⟨hdropped, hreopened⟩
      | cardAdded => exact ⟨hdropped, hreopened⟩
      | cardMerged => exact ⟨hdropped, hreopened⟩

theorem sameMergeRows_of_perm {log log' : List Event} (h : log.Perm log') :
    SameMergeRows (replayBoard env log).board (replayBoard env log').board := by
  obtain ⟨hnative, hshadow⟩ := mergeRows_replayBoard env log
  obtain ⟨hnative', hshadow'⟩ := mergeRows_replayBoard env log'
  constructor
  · rw [hnative, hnative']
    exact h.filterMap _
  · rw [hshadow, hshadow']
    exact h.filterMap _

def displayedBy (env : LedgerEnv) (identity : CardIdentity) (native : Bool) (t : BoardType) (e : Event) :
    Option (String × String) :=
  (mergeReceiptOf env t e).bind fun r => mergeStatement env identity (native, r)

theorem displayedBy_wordless {identity : CardIdentity} {native : Bool} {t : BoardType} {e : Event}
    (h : e.wordlessMerge = true) : displayedBy env identity native t e = none := by
  obtain ⟨-, hnone⟩ := Bool.and_eq_true_iff.mp h
  have hstmt := Option.isNone_iff_eq_none.mp hnone
  unfold displayedBy mergeReceiptOf
  split
  · apply Option.bind_eq_none_iff.mpr
    intro r hr
    unfold boundedCardMergeReceipt at hr
    obtain ⟨canonical, -, hr⟩ := Option.bind_eq_some_iff.mp hr
    obtain ⟨raw, -, hr⟩ := Option.bind_eq_some_iff.mp hr
    dsimp only at hr
    split at hr
    · cases hr
    · cases hr
      unfold mergeStatement
      rw [hstmt]
      apply Option.bind_eq_none_iff.mpr
      intro name _
      rfl
  · rfl

theorem statements_filter (identity : CardIdentity) (native : Bool) (t : BoardType)
    {rows : List MergeRow} {log : List Event}
    (h : rows.map MergeRow.unplaced = log.filterMap (mergeReceiptOf env t)) :
    rows.filterMap (fun r => mergeStatement env identity (native, r)) =
      (log.filter (!·.wordlessMerge)).filterMap (displayedBy env identity native t) := by
  have hplace : rows.filterMap (fun r => mergeStatement env identity (native, r)) =
      (rows.map MergeRow.unplaced).filterMap fun r => mergeStatement env identity (native, r) := by
    rw [List.filterMap_map]
    rfl
  rw [hplace, h, List.filterMap_filterMap, List.filterMap_filter]
  apply List.filterMap_congr
  intro e _
  split
  · rfl
  · rename_i hword
    have hword : e.wordlessMerge = true := by simpa using hword
    exact displayedBy_wordless hword

theorem filterMap_nativeFirst {α β : Type} (native shadow : List α) (f : Bool × α → Option β) :
    (nativeFirst native shadow).filterMap f =
      (native.filterMap fun r => f (true, r)) ++ shadow.filterMap fun r => f (false, r) := by
  unfold nativeFirst
  rw [List.filterMap_append, List.filterMap_map, List.filterMap_map]
  rfl

theorem mergedStmt_filter (env : LedgerEnv) (identity : CardIdentity) {log log' : List Event}
    (h : log.filter (!·.wordlessMerge) = log'.filter (!·.wordlessMerge)) :
    (cardMergeAliases env identity (replayBoard env log).board).mergedStmt =
      (cardMergeAliases env identity (replayBoard env log').board).mergedStmt := by
  obtain ⟨hnative, hshadow⟩ := mergeRows_replayBoard env log
  obtain ⟨hnative', hshadow'⟩ := mergeRows_replayBoard env log'
  unfold cardMergeAliases
  dsimp only
  rw [filterMap_nativeFirst, filterMap_nativeFirst, statements_filter identity true .cardMerged hnative,
    statements_filter identity true .cardMerged hnative',
    statements_filter identity false .hypothesisMerged hshadow,
    statements_filter identity false .hypothesisMerged hshadow', h]

end Logs

/-! ## The guarantee -/

section Guarantee
variable (env : LedgerEnv)

/-- A merge neither loses evidence nor gives a node to two cards. -/
structure MergeKeeps (inputs : CardInputs) : Prop where
  evidence : ∀ i, (mergedLedger env inputs).cards.Evidenced i ↔
    (unmergedLedger env inputs).cards.Evidenced i
  apart : (unmergedLedger env inputs).cards.EvidenceApart
  apartMerged : (mergedLedger env inputs).cards.EvidenceApart

def inputsOf (log : List Event) : CardInputs := cardInputs env (replayBoard env log)

/-- The card whose action block survives under a name. -/
def survivingAction (inputs : CardInputs) (tid : String) : Option Card :=
  mergeActionOwner (mergedLedger env inputs).aliases (unmergedLedger env inputs) tid

/-- The merges of two logs come to the same, but for the statements they display. -/
structure MergesAlike (log log' : List Event) : Prop where
  canon : (mergedLedger env (inputsOf env log)).aliases.canon =
    (mergedLedger env (inputsOf env log')).aliases.canon
  cards : (mergedLedger env (inputsOf env log)).cards.unworded =
    (mergedLedger env (inputsOf env log')).cards.unworded
  actions : survivingAction env (inputsOf env log) = survivingAction env (inputsOf env log')
  controlIds : (mergedLedger env (inputsOf env log)).controlIds =
    (mergedLedger env (inputsOf env log')).controlIds

variable {env}

theorem mergeKeeps (inputs : CardInputs) : MergeKeeps env inputs := by
  obtain ⟨seen, howned, hapart, -⟩ := linked_linkedLedger env
    (cardIdentityMap env inputs.st inputs.board) inputs.st inputs.board
  exact ⟨evidenced_merged howned, hapart, apart_merged hapart⟩

theorem filter_wordless {log log' : List Event}
    (h : log.filter (!·.wordlessMerge) = log'.filter (!·.wordlessMerge)) :
    log.filter (!·.isMerge) = log'.filter (!·.isMerge) := by
  have hfilter (log : List Event) : log.filter (!·.isMerge) =
      (log.filter (!·.wordlessMerge)).filter (!·.isMerge) := by
    rw [List.filter_filter]
    apply List.filter_congr
    intro e _
    unfold Event.wordlessMerge
    cases e.isMerge <;> rfl
  rw [hfilter log, hfilter log', h]

section Permuted
variable (env) {log log' : List Event} (hperm : log.Perm log') (hdrops : ∀ e ∈ log, e.isDrop = false)
include hperm hdrops

theorem unmerged_perm (h : log.filter (!·.isMerge) = log'.filter (!·.isMerge)) :
    (replayBoard env log).unmerged = (replayBoard env log').unmerged := by
  have hdrops' : ∀ e ∈ log', e.isDrop = false := fun e he => hdrops e (hperm.mem_iff.mpr he)
  rw [replayBoard_unmerged hdrops, replayBoard_unmerged hdrops', h]

theorem unmergedLedger_perm (h : log.filter (!·.isMerge) = log'.filter (!·.isMerge)) :
    unmergedLedger env (inputsOf env log) = unmergedLedger env (inputsOf env log') := by
  have hrest := unmerged_perm env hperm hdrops h
  show unmergedLedger env (cardInputs env (replayBoard env log).unmerged) =
    unmergedLedger env (cardInputs env (replayBoard env log').unmerged)
  rw [hrest]

theorem identity_perm (h : log.filter (!·.isMerge) = log'.filter (!·.isMerge)) :
    cardIdentityMap env (inputsOf env log).st (inputsOf env log).board =
      cardIdentityMap env (inputsOf env log').st (inputsOf env log').board := by
  have hrest := unmerged_perm env hperm hdrops h
  show cardIdentityMap env (cardInputs env (replayBoard env log).unmerged).st
      (cardInputs env (replayBoard env log).unmerged).board =
    cardIdentityMap env (cardInputs env (replayBoard env log').unmerged).st
      (cardInputs env (replayBoard env log').unmerged).board
  rw [hrest]

theorem sameAliases_perm (h : log.filter (!·.isMerge) = log'.filter (!·.isMerge)) :
    SameAliases (mergedLedger env (inputsOf env log)).aliases
      (mergedLedger env (inputsOf env log')).aliases := by
  have hid := identity_perm env hperm hdrops h
  show SameAliases (cardMergeAliases env (cardIdentityMap env (inputsOf env log).st
    (inputsOf env log).board) (replayBoard env log).board) (cardMergeAliases env (cardIdentityMap env
    (inputsOf env log').st (inputsOf env log').board) (replayBoard env log').board)
  rw [hid]
  exact sameAliases_of_rows (sameMergeRows_of_perm hperm)

theorem st_perm (h : log.filter (!·.isMerge) = log'.filter (!·.isMerge)) :
    (inputsOf env log).st = (inputsOf env log').st := by
  have hrest := unmerged_perm env hperm hdrops h
  show (cardInputs env (replayBoard env log).unmerged).st =
    (cardInputs env (replayBoard env log').unmerged).st
  rw [hrest]

theorem controlIds_perm (h : log.filter (!·.isMerge) = log'.filter (!·.isMerge)) :
    (mergedLedger env (inputsOf env log)).controlIds =
      (mergedLedger env (inputsOf env log')).controlIds := by
  have hsame := sameAliases_perm env hperm hdrops h
  show mergedControlIds env (cardIdentityMap env (inputsOf env log).st (inputsOf env log).board)
      (mergedLedger env (inputsOf env log)).aliases (unmergedLedger env (inputsOf env log)) =
    mergedControlIds env (cardIdentityMap env (inputsOf env log').st (inputsOf env log').board)
      (mergedLedger env (inputsOf env log')).aliases (unmergedLedger env (inputsOf env log'))
  rw [identity_perm env hperm hdrops h, unmergedLedger_perm env hperm hdrops h, hsame.controlIds]

theorem mergesAlike (h : log.filter (!·.isMerge) = log'.filter (!·.isMerge)) :
    MergesAlike env log log' := by
  have hsame := sameAliases_perm env hperm hdrops h
  have hledger := unmergedLedger_perm env hperm hdrops h
  refine ⟨hsame.canon, ?_, ?_, controlIds_perm env hperm hdrops h⟩
  · show (foldMergedCards (inputsOf env log).st (mergedLedger env (inputsOf env log)).aliases
        (unmergedLedger env (inputsOf env log))).unworded =
      (foldMergedCards (inputsOf env log').st (mergedLedger env (inputsOf env log')).aliases
        (unmergedLedger env (inputsOf env log'))).unworded
    rw [hledger, st_perm env hperm hdrops h]
    exact hsame.cards
  · funext tid
    unfold survivingAction
    rw [hledger]
    exact hsame.actionOwner

theorem cards_perm (h : log.filter (!·.wordlessMerge) = log'.filter (!·.wordlessMerge)) :
    (mergedLedger env (inputsOf env log)).cards = (mergedLedger env (inputsOf env log')).cards := by
  have hmerge := filter_wordless h
  have hsame := sameAliases_perm env hperm hdrops hmerge
  have hstmt : (mergedLedger env (inputsOf env log)).aliases.mergedStmt =
      (mergedLedger env (inputsOf env log')).aliases.mergedStmt := by
    have := mergedStmt_filter env
      (cardIdentityMap env (inputsOf env log).st (inputsOf env log).board) h
    have hid := identity_perm env hperm hdrops hmerge
    show (cardMergeAliases env _ (replayBoard env log).board).mergedStmt =
      (cardMergeAliases env _ (replayBoard env log').board).mergedStmt
    rw [this, hid]
  show foldMergedCards (inputsOf env log).st (mergedLedger env (inputsOf env log)).aliases
      (unmergedLedger env (inputsOf env log)) =
    foldMergedCards (inputsOf env log').st (mergedLedger env (inputsOf env log')).aliases
      (unmergedLedger env (inputsOf env log'))
  rw [unmergedLedger_perm env hperm hdrops hmerge, st_perm env hperm hdrops hmerge]
  exact hsame.cards_worded hstmt

omit hperm in
theorem droppedCards_none (a : CardAliases) :
    droppedCards env a (inputsOf env log).board = Table.empty := by
  obtain ⟨hdropped, hreopened⟩ := dropRows_replayBoard env hdrops
  have hboard : (inputsOf env log).board = (replayBoard env log).board := rfl
  unfold droppedCards
  rw [hboard, hdropped, hreopened]
  rfl

theorem foldedCards_perm (h : log.filter (!·.wordlessMerge) = log'.filter (!·.wordlessMerge)) :
    foldedCards env log = foldedCards env log' := by
  have hmerge := filter_wordless h
  have hrest := unmerged_perm env hperm hdrops hmerge
  have hsame := sameAliases_perm env hperm hdrops hmerge
  have hdrops' : ∀ e ∈ log', e.isDrop = false := fun e he => hdrops e (hperm.mem_iff.mpr he)
  have htail (m : MergedLedger) : finishedCards env (inputsOf env log) m true =
      finishedCards env (inputsOf env log') m true := by
    show finishedCards env (cardInputs env (replayBoard env log).unmerged) m true =
      finishedCards env (cardInputs env (replayBoard env log').unmerged) m true
    rw [hrest]
  have hmerged : finishedCards env (inputsOf env log') (mergedLedger env (inputsOf env log)) true =
      finishedCards env (inputsOf env log') (mergedLedger env (inputsOf env log')) true := by
    unfold finishedCards tiedCards judgedCards buildingCards
    simp only [droppedCards_none env hdrops']
    rw [hsame.canon, cards_perm env hperm hdrops h, controlIds_perm env hperm hdrops hmerge]
  exact (htail _).trans hmerged

end Permuted

/-- Merges lose no evidence, alias chains end on every map, and the merge rows come in no order. -/
theorem merges_conserve (env : LedgerEnv) :
    (∀ inputs, MergeKeeps env inputs) ∧
    (∀ a : CardAliases, Resolves a.aliasOf.get a.canon ∧
      ∀ index, Resolves (a.stepAt index) (a.canonAt · index)) ∧
    ∀ log log' : List Event, log.Perm log' → (∀ e ∈ log, e.isDrop = false) →
      (log.filter (!·.isMerge) = log'.filter (!·.isMerge) → MergesAlike env log log') ∧
      (log.filter (!·.wordlessMerge) = log'.filter (!·.wordlessMerge) →
        (mergedLedger env (inputsOf env log)).cards = (mergedLedger env (inputsOf env log')).cards ∧
          foldedCards env log = foldedCards env log') := by
  refine ⟨mergeKeeps, fun a => ⟨canon_resolves a, canonAt_resolves a⟩, ?_⟩
  intro log log' hperm hdrops
  refine ⟨mergesAlike env hperm hdrops, fun h => ⟨?_, ?_⟩⟩
  · exact cards_perm env hperm hdrops h
  · exact foldedCards_perm env hperm hdrops h

/-- Three cards, of which the second is merged into the first and the third into the second. -/
def mergedRows : List Event :=
  let added (id : String) : Event := { type := "card_added", data := [("id", .str id)] }
  let merged (canonical x : String) : Event :=
    { type := "card_merged", data := [("canonical", .str canonical), ("aliases", .arr [.str x])] }
  [added "a", added "b", added "c", merged "a" "b", merged "b" "c"]

theorem merges_conserve_swapped :
    foldedCards LedgerEnv.plain mergedRows =
      foldedCards LedgerEnv.plain (mergedRows.take 3 ++ [mergedRows[4], mergedRows[3]]) :=
  (((merges_conserve LedgerEnv.plain).2.2 mergedRows _
    ((List.Perm.swap _ _ _).append_left (mergedRows.take 3)) (by decide +kernel)).2 rfl).2

end Guarantee

end LoopLab
