import LoopLab.Guarantees.Merges
import LoopLab.Guarantees.Returns
import LoopLab.Ledger.Drops

/-!
# Reopening a card

The flag on a dropped card says what a reopen at the end of the log does, and what the engine dropped
stays dropped.
-/

set_option autoImplicit false

namespace LoopLab
open Lib

section
variable (env : LedgerEnv)

/-- The drops that stand at the end of a log. -/
def dropsOf (log : List Event) : Drops :=
  standingDrops env (mergedLedger env (inputsOf env log)).aliases (inputsOf env log).board

/-- The row reopens a card, by its name. -/
def Event.Reopens (e : Event) (id : String) : Prop :=
  e.type = "card_reopened" ∧ e.data.get "id" = .str id

/-- Some drop of the log by the engine meant the card. -/
def EngineDropped (log : List Event) (id : String) : Prop :=
  ∃ r ∈ (inputsOf env log).board.cardsDropped, dropAuthor r ≠ "operator" ∧
    meantCard env (mergedLedger env (inputsOf env log)).aliases r = some id

/-- The flag of every dropped card is the truth, and a retirement by the engine is final. -/
structure DropsTruthful (log : List Event) : Prop where
  flag : ∀ c ∈ (foldedCards env log).rows, c.status = .dropped → ∀ e : Event, e.Reopens c.id →
    ∃ d, (foldedCards env (log ++ [e])).get c.id = some d ∧
      (d.status ≠ .dropped ↔ (dropsOf env log).reopenable c.id = true)
  final : ∀ c ∈ (foldedCards env log).rows, EngineDropped env log c.id →
    ∀ rows : List Event, (∀ e ∈ rows, e.isDrop = true) →
      ∃ d, (foldedCards env (log ++ rows)).get c.id = some d ∧ d.status = .dropped

end

section Places
variable {env : LedgerEnv}

/-! ## The places of the rows -/

structure Placed (b : CardBoard) (n : Nat) : Prop where
  cardsMerged : ∀ r ∈ b.cardsMerged, r.eventIndex < n
  hypothesesMerged : ∀ r ∈ b.hypothesesMerged, r.eventIndex < n
  dropped : ∀ r ∈ b.cardsDropped, r.eventIndex < n
  sorted : b.cardsDropped.Pairwise fun q r => q.eventIndex < r.eventIndex

theorem Placed.mono {b : CardBoard} {n : Nat} (h : Placed b n) : Placed b (n + 1) where
  cardsMerged r hr := Nat.lt_succ_of_lt (h.cardsMerged r hr)
  hypothesesMerged r hr := Nat.lt_succ_of_lt (h.hypothesesMerged r hr)
  dropped r hr := Nat.lt_succ_of_lt (h.dropped r hr)
  sorted := h.sorted

theorem Placed.keeps {b b' : CardBoard} {n : Nat} (h : Placed b n) (hb : KeepsRows b b') :
    Placed b' (n + 1) := by
  obtain ⟨hcards, hhypotheses, hdropped, -⟩ := hb
  obtain ⟨h₁, h₂, h₃, h₄⟩ := h.mono
  exact ⟨by rwa [hcards], by rwa [hhypotheses], by rwa [hdropped], by rwa [hdropped]⟩

theorem mem_appendSome {α : Type} {xs : List α} {x : Option α} {a : α} :
    a ∈ appendSome xs x ↔ a ∈ xs ∨ x = some a := by
  unfold appendSome
  rw [List.mem_append, Option.mem_toList]

theorem mergeReceipt_place {index : Nat} {d : Obj} {r : MergeRow}
    (h : boundedCardMergeReceipt env index d = some r) : r.eventIndex = index := by
  unfold boundedCardMergeReceipt at h
  obtain ⟨canonical, -, h⟩ := Option.bind_eq_some_iff.mp h
  obtain ⟨raw, -, h⟩ := Option.bind_eq_some_iff.mp h
  dsimp only at h
  split at h
  · cases h
  · cases h
    rfl

theorem dropReceipt_place {index : Nat} {d : Obj} {r : DropRow}
    (h : boundedCardDropReceipt env index d = some r) : r.eventIndex = index := by
  unfold boundedCardDropReceipt at h
  obtain ⟨id, -, h⟩ := Option.bind_eq_some_iff.mp h
  cases h
  rfl

theorem Placed.dropRow {b : CardBoard} {n : Nat} (h : Placed b n) {x : Option DropRow}
    (hx : ∀ r, x = some r → r.eventIndex = n) :
    Placed { b with cardsDropped := appendSome b.cardsDropped x } (n + 1) := by
  obtain ⟨h₁, h₂, h₃, h₄⟩ := h.mono
  refine ⟨h₁, h₂, ?_, ?_⟩
  · intro r hr
    rcases mem_appendSome.mp hr with hr | hr
    · exact h₃ r hr
    · rw [hx r hr]
      exact Nat.lt_succ_self n
  · apply List.pairwise_append.mpr
    refine ⟨h₄, ?_, ?_⟩
    · cases x with
      | none => exact .nil
      | some r => exact List.pairwise_singleton _ r
    · intro q hq r hr
      rw [hx r (by simpa using hr)]
      exact h.dropped q hq

theorem placed_replayBoard (env : LedgerEnv) (log : List Event) :
    Placed (replayBoard env log).board (replayBoard env log).index := by
  induction log using List.reverseRecOn with
  | nil =>
    constructor
    · intro r hr
      cases hr
    · intro r hr
      cases hr
    · intro r hr
      cases hr
    · exact .nil
  | append_singleton log e ih =>
    rw [replayBoard_snoc]
    unfold boardStep
    cases e.boardRow with
    | none => exact ih.mono
    | some t =>
      cases t with
      | cardDropped =>
        apply ih.dropRow
        intro r hr
        exact dropReceipt_place hr
      | cardAutoDropped =>
        apply ih.dropRow
        intro r hr
        obtain ⟨q, hq, rfl⟩ := Option.map_eq_some_iff.mp hr
        exact dropReceipt_place (r := q) hq
      | cardReopened => exact ⟨ih.mono.1, ih.mono.2, ih.mono.3, ih.mono.4⟩
      | cardAdded => exact ih.keeps ⟨rfl, rfl, rfl, rfl⟩
      | hypothesisAdded => exact ih.keeps (.hypothesisAdded _ _)
      | hypothesisUpdated => exact ih.keeps (.hypothesisUpdated _ _)
      | cardFiled => exact ih.keeps (.cardFiled _ _)
      | hypothesisMerged =>
        refine ⟨ih.mono.1, ?_, ih.mono.3, ih.mono.4⟩
        intro r hr
        rcases mem_appendSome.mp hr with hr | hr
        · exact ih.mono.2 r hr
        · rw [mergeReceipt_place hr]
          exact Nat.lt_succ_self _
      | cardMerged =>
        refine ⟨?_, ih.mono.2, ih.mono.3, ih.mono.4⟩
        intro r hr
        rcases mem_appendSome.mp hr with hr | hr
        · exact ih.mono.1 r hr
        · rw [mergeReceipt_place hr]
          exact Nat.lt_succ_self _

/-! ## Logs that grow by drops and reopens -/

def CardInputs.redropped (inputs : CardInputs) (dropped reopened : List DropRow) : CardInputs :=
  { inputs with board := { inputs.board with cardsDropped := dropped, cardsReopened := reopened } }

theorem merged_redropped (inputs : CardInputs) (dropped reopened : List DropRow) :
    mergedLedger env (inputs.redropped dropped reopened) = mergedLedger env inputs := rfl

theorem inputsOf_drops (env : LedgerEnv) (log : List Event) {rows : List Event}
    (h : ∀ e ∈ rows, e.isDrop = true) : ∃ dropped reopened,
    inputsOf env (log ++ rows) = (inputsOf env log).redropped
      ((inputsOf env log).board.cardsDropped ++ dropped) reopened := by
  induction rows using List.reverseRecOn with
  | nil =>
    refine ⟨[], (inputsOf env log).board.cardsReopened, ?_⟩
    rw [List.append_nil, List.append_nil]
    rfl
  | append_singleton rows e ih =>
    obtain ⟨dropped, reopened, ih⟩ := ih fun x hx => h x (List.mem_append_left _ hx)
    have he := h e (by simp)
    rw [← List.append_assoc]
    have hdropped := congrArg (fun inputs : CardInputs => inputs.board.cardsDropped) ih
    have hgrown (dropped' : List DropRow) {reopened' : List DropRow} (hrow : inputsOf env (log ++ rows ++ [e]) =
        (inputsOf env (log ++ rows)).redropped
          ((inputsOf env (log ++ rows)).board.cardsDropped ++ dropped') reopened') :
        ∃ dropped reopened, inputsOf env (log ++ rows ++ [e]) = (inputsOf env log).redropped
          ((inputsOf env log).board.cardsDropped ++ dropped) reopened := by
      refine ⟨dropped ++ dropped', reopened', ?_⟩
      rw [hrow, hdropped, ih, ← List.append_assoc]
      rfl
    unfold Event.isDrop at he
    rcases Bool.or_eq_true_iff.mp he with he | he
    · rcases Bool.or_eq_true_iff.mp he with he | he
      · have hrow : e.boardRow = some .cardDropped := of_decide_eq_true he
        apply hgrown _
        unfold inputsOf
        rw [replayBoard_snoc]
        unfold boardStep
        rw [logStep_boardRow hrow, hrow]
        rfl
      · have hrow : e.boardRow = some .cardAutoDropped := of_decide_eq_true he
        apply hgrown _
        unfold inputsOf
        rw [replayBoard_snoc]
        unfold boardStep
        rw [logStep_boardRow hrow, hrow]
        rfl
    · have hrow : e.boardRow = some .cardReopened := of_decide_eq_true he
      apply hgrown []
      unfold inputsOf
      rw [replayBoard_snoc]
      unfold boardStep
      rw [logStep_boardRow hrow, hrow, List.append_nil]
      rfl

theorem inputsOf_reopen (env : LedgerEnv) (log : List Event) {e : Event}
    (hrow : e.boardRow = some .cardReopened) : inputsOf env (log ++ [e]) =
      (inputsOf env log).redropped (inputsOf env log).board.cardsDropped
        (appendSome (inputsOf env log).board.cardsReopened
          (boundedCardDropReceipt env (replayBoard env log).index e.data)) := by
  unfold inputsOf
  rw [replayBoard_snoc]
  unfold boardStep
  rw [logStep_boardRow hrow, hrow]
  rfl

/-! ## The lane of a dropped card -/

theorem lane_dropped {st : RunState} {dropped : Bool} {building : Option (List Int)} {c : Card} :
    (cardLane st dropped building c).1 = .dropped ↔ dropped = true := by
  cases dropped with
  | true => exact ⟨fun _ => rfl, fun _ => rfl⟩
  | false =>
    simp only [Bool.false_eq_true, iff_false]
    unfold cardLane
    dsimp only
    rw [if_neg Bool.false_ne_true]
    cases building with
    | some ids => simp
    | none =>
      dsimp only
      split
      · simp
      · split
        · simp
        · split
          · simp
          · split
            · simp
            · split <;> simp

theorem derived_dropped {inputs : CardInputs} {id : String} {c : Card}
    (h : (derivedCards env inputs true).get id = some c) : c.status = .dropped ↔
      ((standingDrops env (mergedLedger env inputs).aliases inputs.board).dropped.get id).isSome = true := by
  have hstatus := derived_status env inputs true id
  rw [h] at hstatus
  split at hstatus
  · cases hstatus
  · cases hget : (mergedLedger env inputs).cards.get id with
    | none =>
      rw [hget] at hstatus
      cases hstatus
    | some d =>
      rw [hget] at hstatus
      have hlane : c.status = laneOf env inputs (mergedLedger env inputs) true d :=
        Option.some.inj hstatus
      rw [hlane]
      unfold laneOf
      rw [lane_dropped, show d.id = id from Table.key_of_get hget]
      unfold Table.has Dict.get
      rw [Option.isSome_map]
      rfl

theorem get_redropped {inputs : CardInputs} {id : String} {c : Card}
    (h : (derivedCards env inputs true).get id = some c) (dropped reopened : List DropRow) :
    ∃ d, (derivedCards env (inputs.redropped dropped reopened) true).get id = some d := by
  apply Option.isSome_iff_exists.mp
  have hhas := has_derived env (inputs.redropped dropped reopened) true id
  rw [merged_redropped] at hhas
  have hsame := has_derived env inputs true id
  unfold Table.has at hhas hsame
  rw [hhas]
  rw [h] at hsame
  exact hsame.symm

/-! ## The flag and the engine's drops -/

theorem meant_published {log : List Event} {id : String} (hid : Admitted env id)
    (hcanon : (mergedLedger env (inputsOf env log)).aliases.canon id = id) (hne : id ≠ "")
    {r : DropRow} (hr : r.id = id) (hplace : r.eventIndex = (replayBoard env log).index) :
    meantCard env (mergedLedger env (inputsOf env log)).aliases r = some id := by
  have hplaced := placed_replayBoard env log
  have hlate : (mergedLedger env (inputsOf env log)).aliases.canonAt id (replayBoard env log).index =
      (mergedLedger env (inputsOf env log)).aliases.canon id := by
    apply canonAt_late
    · intro q hq
      exact Nat.le_of_lt (hplaced.cardsMerged q hq)
    · intro q hq
      exact Nat.le_of_lt (hplaced.hypothesesMerged q hq)
  unfold meantCard
  rw [hr, hid.2, hplace, Option.map_some, hlate, hcanon]
  simp [hne]

theorem reopens_row {e : Event} {id : String} (h : e.Reopens id) : e.boardRow = some .cardReopened := by
  unfold Event.boardRow
  rw [h.1]
  decide

theorem reopen_receipt {e : Event} {id : String} (index : Nat) (h : e.Reopens id)
    (hid : Admitted env id) : ∃ r, boundedCardDropReceipt env index e.data = some r ∧ r.id = id ∧
      r.eventIndex = index := by
  unfold boundedCardDropReceipt
  rw [h.2, hid.1]
  exact ⟨_, rfl, rfl, rfl⟩

theorem flag_truthful (log : List Event) {c : Card} (hc : c ∈ (foldedCards env log).rows)
    (hdropped : c.status = .dropped) {e : Event} (he : e.Reopens c.id) :
    ∃ d, (foldedCards env (log ++ [e])).get c.id = some d ∧
      (d.status ≠ .dropped ↔ (dropsOf env log).reopenable c.id = true) := by
  have hget : (derivedCards env (inputsOf env log) true).get c.id = some c := Table.get_of_mem hc
  have hstands := (derived_dropped hget).mp hdropped
  obtain ⟨prior, hprior⟩ := Option.isSome_iff_exists.mp hstands
  have hadmitted : Admitted env c.id :=
    standing_holds admitted_cardId (seedOwner_holds admitted_cardId _ _) hprior
  obtain ⟨-, row, hrow, -⟩ := mem_deriveCards hc
  have hkey : row.id = c.id := Table.key_of_get hrow
  have hsettled := laid_settled hrow
  have hne := hsettled.named
  have hcanon := hsettled.own
  rw [hkey] at hne hcanon
  have hinputs := inputsOf_reopen env log (reopens_row he)
  obtain ⟨r, hreceipt, hid, hplace⟩ :=
    reopen_receipt (replayBoard env log).index he hadmitted
  have hmeant := meant_published hadmitted hcanon hne hid hplace
  have hbelow : (dropsOf env log).Below r.eventIndex := by
    rw [hplace]
    exact below_standingDrops (placed_replayBoard env log).dropped
  have hlast := reopen_last hbelow hmeant hprior
  obtain ⟨d, hd⟩ := get_redropped hget (inputsOf env log).board.cardsDropped
    (appendSome (inputsOf env log).board.cardsReopened
      (boundedCardDropReceipt env (replayBoard env log).index e.data))
  have hafter := derived_dropped hd
  rw [merged_redropped] at hafter
  have hfold : foldedCards env (log ++ [e]) = derivedCards env (inputsOf env (log ++ [e])) true := rfl
  rw [hfold, hinputs]
  refine ⟨d, hd, ?_⟩
  have hdrops : standingDrops env (mergedLedger env (inputsOf env log)).aliases
      ((inputsOf env log).redropped (inputsOf env log).board.cardsDropped
        (appendSome (inputsOf env log).board.cardsReopened
          (boundedCardDropReceipt env (replayBoard env log).index e.data))).board =
      reopenCard env (mergedLedger env (inputsOf env log)).aliases (dropsOf env log) r := by
    rw [hreceipt]
    exact List.foldl_append ..
  rw [ne_eq, hafter, hdrops, Option.not_isSome_iff_eq_none]
  exact hlast

theorem engine_final (log : List Event) {c : Card} (hc : c ∈ (foldedCards env log).rows)
    (hengine : EngineDropped env log c.id) {rows : List Event} (hrows : ∀ e ∈ rows, e.isDrop = true) :
    ∃ d, (foldedCards env (log ++ rows)).get c.id = some d ∧ d.status = .dropped := by
  have hget : (derivedCards env (inputsOf env log) true).get c.id = some c := Table.get_of_mem hc
  obtain ⟨r, hr, hauthor, hmeant⟩ := hengine
  obtain ⟨dropped, reopened, hinputs⟩ := inputsOf_drops env log hrows
  have hsorted := (placed_replayBoard env (log ++ rows)).sorted
  have hboard := congrArg (fun inputs : CardInputs => inputs.board.cardsDropped) hinputs
  have hboard : (replayBoard env (log ++ rows)).board.cardsDropped =
      (inputsOf env log).board.cardsDropped ++ dropped := hboard
  rw [hboard] at hsorted
  have hheld : (standingDrops env (mergedLedger env (inputsOf env log)).aliases
      ((inputsOf env log).redropped ((inputsOf env log).board.cardsDropped ++ dropped)
        reopened).board).Held c.id :=
    held_standingDrops hsorted (List.mem_append_left dropped hr) hmeant hauthor
  obtain ⟨i, last, -, hlast, -⟩ := hheld
  obtain ⟨d, hd⟩ := get_redropped hget ((inputsOf env log).board.cardsDropped ++ dropped) reopened
  have hfold : foldedCards env (log ++ rows) = derivedCards env (inputsOf env (log ++ rows)) true := rfl
  rw [hfold, hinputs]
  refine ⟨d, hd, (derived_dropped hd).mpr ?_⟩
  rw [merged_redropped, hlast]
  rfl

end Places

/-- On every log the flag of a dropped card is what a reopen does, and a drop by the engine is final. -/
theorem drops_truthful (env : LedgerEnv) (log : List Event) : DropsTruthful env log where
  flag _ hc hdropped _ he := flag_truthful log hc hdropped he
  final _ hc hengine _ hrows := engine_final log hc hengine hrows

end LoopLab
