import LoopLab.Engine.CardDrops
import LoopLab.Guarantees.Reopening

/-!
# The engine's drops and the board's

The scan of the raw rows goes by the name a row bears and by its last drop alone.
-/

set_option autoImplicit false

namespace LoopLab
open Lib

/-! ## What the board holds -/

section Standing
variable {env : LedgerEnv} {aliases : CardAliases} {id : String}

theorem get_foldl_dropCard (env : LedgerEnv) (aliases : CardAliases) (id : String)
    (rows : List DropRow) : (rows.foldl (dropCard env aliases) {}).dropped.get id =
    (rows.filter (meantCard env aliases · = some id)).getLast? := by
  induction rows using List.reverseRecOn with
  | nil => rfl
  | append_singleton rows r ih =>
    rw [List.foldl_append, List.foldl_cons, List.foldl_nil, List.filter_append]
    cases hmeant : meantCard env aliases r with
    | none =>
      rw [dropCard_none hmeant, ih]
      simp [hmeant]
    | some name =>
      rw [dropCard_some hmeant, Dict.get_set]
      by_cases hid : id = name
      · simp [hmeant, hid]
      · rw [if_neg hid, ih]
        simp [hmeant, Ne.symm hid]

theorem mem_engine_foldl {rows : List DropRow} {i : Nat} :
    (id, i) ∈ (rows.foldl (dropCard env aliases) {}).engine ↔
      ∃ r ∈ rows, meantCard env aliases r = some id ∧ dropAuthor r ≠ "operator" ∧ r.eventIndex = i := by
  induction rows using List.reverseRecOn with
  | nil => simp
  | append_singleton rows r ih =>
    rw [List.foldl_append, List.foldl_cons, List.foldl_nil]
    have hsnoc (P : DropRow → Prop) : (∃ q ∈ rows ++ [r], P q) ↔ (∃ q ∈ rows, P q) ∨ P r := by
      simp only [List.mem_append, List.mem_singleton, or_and_right, exists_or, exists_eq_left]
    rw [hsnoc, ← ih]
    cases hmeant : meantCard env aliases r with
    | none =>
      rw [dropCard_none hmeant]
      simp
    | some name =>
      rw [dropCard_some hmeant]
      by_cases hauthor : dropAuthor r = "operator"
      · simp [hauthor]
      · rw [if_neg hauthor, List.mem_append, List.mem_singleton, Prod.mk.injEq, Option.some.injEq]
        constructor
        · rintro (hin | ⟨hid, hi⟩)
          · exact .inl hin
          · exact .inr ⟨hid.symm, hauthor, hi.symm⟩
        · rintro (hin | ⟨hid, -, hi⟩)
          · exact .inl hin
          · exact .inr ⟨hid.symm, hi.symm⟩

def Undoes (env : LedgerEnv) (aliases : CardAliases) (s : Drops) (id : String) (prior q : DropRow) : Prop :=
  meantCard env aliases q = some id ∧ prior.eventIndex < q.eventIndex ∧ dropAuthor prior = "operator" ∧
    ∀ e ∈ s.engine, e.1 = id → q.eventIndex ≤ e.2

theorem reopenCard_engine (s : Drops) (r : DropRow) : (reopenCard env aliases s r).engine = s.engine := by
  rcases reopenCard_cases env aliases s r with hsame | ⟨name, -, -, -, -, -, herase⟩
  · rw [hsame]
  · rw [herase]

theorem get_reopenCard (env : LedgerEnv) (aliases : CardAliases) {s : Drops} (q : DropRow)
    {prior : DropRow} (h : s.dropped.get id = some prior) :
    (Undoes env aliases s id prior q ∧ (reopenCard env aliases s q).dropped.get id = none) ∨
      (¬ Undoes env aliases s id prior q ∧ (reopenCard env aliases s q).dropped.get id = some prior) := by
  have hany : (s.engine.any fun e => e.1 = id && e.2 < q.eventIndex) = false ↔
      ∀ e ∈ s.engine, e.1 = id → q.eventIndex ≤ e.2 := by
    simp only [List.any_eq_false, Bool.and_eq_true, decide_eq_true_eq, not_and, Nat.not_lt]
  unfold Undoes reopenCard
  cases hmeant : meantCard env aliases q with
  | none =>
    refine .inr ⟨?_, h⟩
    rintro ⟨hid, -⟩
    cases hid
  | some name =>
    by_cases hid : name = id
    · subst hid
      rw [Option.bind_some, h, Option.map_some]
      dsimp only
      rw [← hany]
      split
      · rename_i hundo
        refine .inl ⟨by simpa [and_assoc] using hundo, ?_⟩
        rw [Dict.get_erase, if_pos rfl]
      · rename_i hundo
        refine .inr ⟨?_, h⟩
        intro hall
        apply hundo
        simpa [and_assoc] using hall
    · refine .inr ⟨?_, ?_⟩
      · rintro ⟨heq, -⟩
        exact hid (Option.some.inj heq)
      · split
        · exact h
        · rename_i other undone hrow
          obtain ⟨rfl, -⟩ : name = other ∧ s.dropped.get name = some undone := by
            obtain ⟨row, hrow, heq⟩ := Option.map_eq_some_iff.mp (Option.bind_some .. ▸ hrow)
            cases heq
            exact ⟨rfl, hrow⟩
          split
          · rw [Dict.get_erase, if_neg (Ne.symm hid)]
            exact h
          · exact h

theorem foldl_reopenCard_none (rows : List DropRow) {s : Drops} (h : s.dropped.get id = none) :
    (rows.foldl (reopenCard env aliases) s).dropped.get id = none := by
  induction rows generalizing s with
  | nil => exact h
  | cons q rows ih =>
    apply ih
    rcases reopenCard_cases env aliases s q with hsame | ⟨name, -, -, -, -, -, herase⟩
    · rw [hsame]
      exact h
    · rw [herase, Dict.get_erase]
      split
      · rfl
      · exact h

theorem get_foldl_reopenCard (env : LedgerEnv) (aliases : CardAliases) (rows : List DropRow)
    {s : Drops} {prior : DropRow} (h : s.dropped.get id = some prior) : (rows.foldl (reopenCard env aliases) s).dropped.get id = none ↔
      ∃ q ∈ rows, Undoes env aliases s id prior q := by
  induction rows generalizing s with
  | nil => simp [h]
  | cons q rows ih =>
    rw [List.foldl_cons, List.exists_mem_cons_iff]
    rcases get_reopenCard env aliases q h with ⟨hundo, hnone⟩ | ⟨hkeep, hget⟩
    · exact iff_of_true (foldl_reopenCard_none rows hnone) (.inl hundo)
    · rw [ih hget, or_iff_right hkeep]
      unfold Undoes
      rw [reopenCard_engine]

end Standing

section Board
variable (env : LedgerEnv) (log : List Event) (id : String)

/-- The drop means the card at its place in the log. -/
def DropMeans (r : DropRow) : Prop :=
  r ∈ (inputsOf env log).board.cardsDropped ∧
    meantCard env (mergedLedger env (inputsOf env log)).aliases r = some id

/-- A reopen that means the card comes behind every drop that does. -/
def ReopenedLast : Prop :=
  ∃ q ∈ (inputsOf env log).board.cardsReopened,
    meantCard env (mergedLedger env (inputsOf env log)).aliases q = some id ∧
    ∀ r, DropMeans env log id r → r.eventIndex < q.eventIndex

theorem get_dropsOf : (dropsOf env log).dropped.get id = none ↔ (∀ r, ¬ DropMeans env log id r) ∨
    (∀ r, DropMeans env log id r → dropAuthor r = "operator") ∧ ReopenedLast env log id := by
  let aliases := (mergedLedger env (inputsOf env log)).aliases
  let meant := (inputsOf env log).board.cardsDropped.filter (meantCard env aliases · = some id)
  have hmem (r : DropRow) : DropMeans env log id r ↔ r ∈ meant := by
    unfold DropMeans
    rw [List.mem_filter, decide_eq_true_eq]
  have hget := get_foldl_dropCard env aliases id (inputsOf env log).board.cardsDropped
  cases hlast : meant.getLast? with
  | none =>
    have hnone : meant = [] := List.getLast?_eq_none_iff.mp hlast
    apply iff_of_true
    · exact foldl_reopenCard_none _ (hget.trans hlast)
    · refine .inl ?_
      intro r hr
      have := (hmem r).mp hr
      rw [hnone] at this
      cases this
  | some prior =>
    obtain ⟨before, hsplit⟩ := List.getLast?_eq_some_iff.mp hlast
    have hprior : DropMeans env log id prior := (hmem prior).mpr (by rw [hsplit]; simp)
    have hsorted : meant.Pairwise fun q r => q.eventIndex < r.eventIndex :=
      (placed_replayBoard env log).sorted.filter _
    have hmax (r : DropRow) (hr : DropMeans env log id r) : r.eventIndex ≤ prior.eventIndex := by
      have hr := (hmem r).mp hr
      rw [hsplit] at hr hsorted
      rcases List.mem_append.mp hr with hr | hr
      · exact Nat.le_of_lt ((List.pairwise_append.mp hsorted).2.2 r hr prior (List.mem_singleton_self _))
      · rw [List.mem_singleton.mp hr]
    have hengine (q : DropRow) (hq : prior.eventIndex < q.eventIndex) :
        (∀ e ∈ ((inputsOf env log).board.cardsDropped.foldl (dropCard env aliases) {}).engine,
          e.1 = id → q.eventIndex ≤ e.2) ↔ ∀ r, DropMeans env log id r → dropAuthor r = "operator" := by
      constructor
      · intro hall r hr
        by_contra hauthor
        have hin := mem_engine_foldl.mpr ⟨r, hr.1, hr.2, hauthor, rfl⟩
        have hle : q.eventIndex ≤ r.eventIndex := hall _ hin rfl
        have := hmax r hr
        omega
      · rintro hall ⟨name, i⟩ hin rfl
        obtain ⟨r, hr, hmeant, hauthor, -⟩ := mem_engine_foldl.mp hin
        exact absurd (hall r ⟨hr, hmeant⟩) hauthor
    have hfold := get_foldl_reopenCard env aliases (inputsOf env log).board.cardsReopened (hget.trans hlast)
    have hsome : ¬ ∀ r, ¬ DropMeans env log id r := fun h => h prior hprior
    unfold dropsOf standingDrops
    rw [hfold, or_iff_right hsome]
    constructor
    · rintro ⟨q, hq, hmeant, hlt, hauthor, hall⟩
      refine ⟨(hengine q hlt).mp hall, q, hq, hmeant, ?_⟩
      intro r hr
      exact Nat.lt_of_le_of_lt (hmax r hr) hlt
    · rintro ⟨hauthors, q, hq, hmeant, hlate⟩
      have hlt := hlate prior hprior
      exact ⟨q, hq, hmeant, hlt, hauthors prior hprior, (hengine q hlt).mpr hauthors⟩

/-- The card is on the board, and stands dropped there. -/
def FoldDropped : Prop := ∃ c, (foldedCards env log).get id = some c ∧ c.status = .dropped

end Board

section Published
variable {env : LedgerEnv} {log : List Event} {c : Card}

theorem foldDropped_iff (h : c ∈ (foldedCards env log).rows) :
    FoldDropped env log c.id ↔ (dropsOf env log).dropped.get c.id ≠ none := by
  have hget : (derivedCards env (inputsOf env log) true).get c.id = some c := Table.get_of_mem h
  have hstatus := derived_dropped hget
  rw [Option.isSome_iff_ne_none] at hstatus
  unfold dropsOf
  rw [← hstatus]
  constructor
  · rintro ⟨d, hd, hdropped⟩
    cases hget.symm.trans hd
    exact hdropped
  · intro hdropped
    exact ⟨c, hget, hdropped⟩

theorem FoldDropped.admitted {id : String} (h : FoldDropped env log id) : Admitted env id := by
  obtain ⟨c, hget, hdropped⟩ := h
  obtain ⟨prior, hprior⟩ := Option.isSome_iff_exists.mp ((derived_dropped hget).mp hdropped)
  exact standing_holds admitted_cardId (seedOwner_holds admitted_cardId _ _) hprior

theorem inputsOf_autoDrop (env : LedgerEnv) (log : List Event) {e : Event}
    (hrow : e.boardRow = some .cardAutoDropped) : inputsOf env (log ++ [e]) =
      (inputsOf env log).redropped
        (appendSome (inputsOf env log).board.cardsDropped
          ((boundedCardDropReceipt env (replayBoard env log).index e.data).map
            fun r => { r with droppedBy := some "engine" }))
        (inputsOf env log).board.cardsReopened := by
  unfold inputsOf
  rw [replayBoard_snoc]
  unfold boardStep
  rw [logStep_boardRow hrow, hrow]
  rfl

theorem foldDropped_autoDrop (h : c ∈ (foldedCards env log).rows) (hadmitted : Admitted env c.id)
    {e : Event} (htype : e.type = "card_auto_dropped") (hid : e.data.get "id" = .str c.id) :
    FoldDropped env (log ++ [e]) c.id := by
  have hrow : e.boardRow = some .cardAutoDropped := by
    unfold Event.boardRow
    rw [htype]
    decide
  have hget : (derivedCards env (inputsOf env log) true).get c.id = some c := Table.get_of_mem h
  obtain ⟨-, row, hlaid, -⟩ := mem_deriveCards h
  have hkey : row.id = c.id := Table.key_of_get hlaid
  obtain ⟨hne, hcanon, -⟩ := laid_settled hlaid
  rw [hkey] at hne hcanon
  obtain ⟨r, hreceipt, hrid, hplace⟩ : ∃ r,
      boundedCardDropReceipt env (replayBoard env log).index e.data = some r ∧ r.id = c.id ∧
        r.eventIndex = (replayBoard env log).index := by
    unfold boundedCardDropReceipt
    rw [hid, hadmitted.1]
    exact ⟨_, rfl, rfl, rfl⟩
  have hinputs := inputsOf_autoDrop env log hrow
  obtain ⟨d, hd⟩ := get_redropped hget _ _
  rw [← hinputs] at hd
  let drop : DropRow := { r with droppedBy := some "engine" }
  have hdrop : drop ∈ (inputsOf env (log ++ [e])).board.cardsDropped := by
    rw [hinputs, hreceipt]
    exact mem_appendSome.mpr (.inr rfl)
  have hauthor : dropAuthor drop = "engine" := rfl
  have hdid : d.id = c.id := Table.key_of_get hd
  have hengine : EngineDropped env (log ++ [e]) d.id := by
    refine ⟨drop, hdrop, by rw [hauthor]; decide, ?_⟩
    rw [hdid, hinputs, merged_redropped]
    exact meant_published hadmitted hcanon hne hrid hplace
  have hnil : ∀ e ∈ ([] : List Event), e.isDrop = true := List.forall_mem_nil _
  have hfinal := engine_final (log ++ [e]) (Table.mem_of_get hd) hengine hnil
  rwa [List.append_nil, hdid] at hfinal

end Published

namespace Engine

/-! ## The writer and the board -/

section Writer
variable (env : LedgerEnv) (log : List Event) (id : String)

/-- The writer goes by the drop that stands on the board, and leaves the card dropped for good. -/
structure DropWriterAgrees : Prop where
  same : ∀ reason droppedBy,
    cardAutoDropRow env log (some id) reason droppedBy = none ↔ FoldDropped env log id
  leaves : ∀ reason droppedBy m ids, ∃ log',
    dropCardOnce env (some id) reason droppedBy m ids [] log = some log' ∧ FoldDropped env log' id ∧
      ∀ reason' droppedBy' m' ids' moves,
        dropCardOnce env (some id) reason' droppedBy' m' ids' moves log' = some log'

/-- The rows that name the card say what the rows that mean it do. -/
structure NamesSuffice : Prop where
  named : Admitted env id
  unmeant : (∀ r, ¬ DropMeans env log id r) → (dropLatch env id).AtRest log
  engine : ∀ r, DropMeans env log id r → dropAuthor r ≠ "operator" → ¬ (dropLatch env id).AtRest log
  operator : (∃ r, DropMeans env log id r) → (∀ r, DropMeans env log id r → dropAuthor r = "operator") →
    ((dropLatch env id).AtRest log ↔ ReopenedLast env log id)

end Writer

section Agreement
variable {env : LedgerEnv} {log : List Event} {c : Card} {id : String}

theorem namesSuffice_iff : NamesSuffice env log id ↔ Admitted env id ∧
    ((dropLatch env id).AtRest log ↔ (dropsOf env log).dropped.get id = none) := by
  rw [get_dropsOf]
  constructor
  · rintro ⟨hnamed, hunmeant, hengine, hoperator⟩
    refine ⟨hnamed, ?_, ?_⟩
    · intro hrest
      by_cases hmeant : ∃ r, DropMeans env log id r
      · have hauthors : ∀ r, DropMeans env log id r → dropAuthor r = "operator" := by
          intro r hr
          by_contra hauthor
          exact hengine r hr hauthor hrest
        exact .inr ⟨hauthors, (hoperator hmeant hauthors).mp hrest⟩
      · exact .inl (not_exists.mp hmeant)
    · rintro (hnone | ⟨hauthors, hlast⟩)
      · exact hunmeant hnone
      · by_cases hmeant : ∃ r, DropMeans env log id r
        · exact (hoperator hmeant hauthors).mpr hlast
        · exact hunmeant (not_exists.mp hmeant)
  · rintro ⟨hnamed, hsame⟩
    refine ⟨hnamed, ?_, ?_, ?_⟩
    · intro hnone
      exact hsame.mpr (.inl hnone)
    · intro r hr hauthor hrest
      rcases hsame.mp hrest with hnone | ⟨hauthors, -⟩
      · exact hnone r hr
      · exact hauthor (hauthors r hr)
    · rintro ⟨r, hr⟩ hauthors
      rw [hsame, or_iff_right (fun hnone => hnone r hr), and_iff_right hauthors]

theorem autoDrop_holds (hid : Admitted env id) {e : Event} (htype : e.type = "card_auto_dropped")
    (hname : e.data.get "id" = .str id) : ¬ (dropLatch env id).AtRest (log ++ [e]) := by
  have hset : (dropLatch env id).sets e = true := by
    unfold dropLatch names canonicalCardId isDropRow
    dsimp only
    rw [hname, hid.1, htype]
    simp
  rw [← Latch.held_none_iff, Latch.held_snoc]
  unfold Latch.step
  rw [if_pos hset]
  simp

theorem dropCardOnce_stands {reason droppedBy : String} {m : Moment} {ids : Option String × Option String}
    {moves : List (List Event)} (hne : id ≠ "") (h : ¬ (dropLatch env id).AtRest log) :
    dropCardOnce env (some id) reason droppedBy m ids moves log = some log := by
  have hrow := (cardAutoDropRow_eq_none env log reason droppedBy hne).mpr h
  have hid : (some id).filter (· ≠ "") = some id := by simp [hne]
  unfold dropCardOnce
  rw [hid]
  dsimp only
  unfold retryTailCas
  rw [hrow]

theorem dropCardOnce_lands (reason droppedBy : String) (m : Moment)
    (ids : Option String × Option String) (hne : id ≠ "") (h : (dropLatch env id).AtRest log) :
    ∃ e : Event, dropCardOnce env (some id) reason droppedBy m ids [] log = some (log ++ [e]) ∧
      e.type = "card_auto_dropped" ∧ e.data.get "id" = .str id := by
  have hid : (some id).filter (· ≠ "") = some id := by simp [hne]
  have hheld := (Latch.held_none_iff log).mpr h
  unfold Latch.held at hheld
  have hrow : cardAutoDropRow env log (some id) reason droppedBy = some ("card_auto_dropped",
      [("id", .str id), ("reason", .str reason), ("dropped_by", .str droppedBy)]) := by
    unfold cardAutoDropRow
    rw [hid]
    dsimp only
    rw [scanRow_eq_step, hheld]
  unfold dropCardOnce
  rw [hid]
  dsimp only
  unfold retryTailCas
  rw [hrow]
  exact ⟨_, rfl, rfl, rfl⟩

end Agreement

/-- A card the operator has stopped. -/
def stoppedRows : List Event :=
  [{ type := "card_added", data := [("id", .str "card-0")] },
   { type := "card_dropped", data := [("id", .str "card-0"), ("dropped_by", .str "operator")] }]

/-- The engine drops a card, the operator drops it over that, and reopens it. -/
def overDropped : List Event :=
  [{ type := "card_added", data := [("id", .str "card-0")] },
   { type := "card_auto_dropped", data := [("id", .str "card-0"), ("dropped_by", .str "engine")] },
   { type := "card_dropped", data := [("id", .str "card-0"), ("dropped_by", .str "operator")] },
   { type := "card_reopened", data := [("id", .str "card-0")] }]

section Taken
variable {plan : List Event → Option (String × Obj)} {m : Moment} {ids : Option String × Option String}
  {moves : List (List Event)} {log log' : List Event}

/-- The retries run out only where the log moves under each of them. -/
theorem retryTailCas_ends {attempts : Nat} (h : moves.length < attempts) :
    ∃ log', retryTailCas plan m ids attempts moves log = some log' := by
  induction attempts generalizing moves log with
  | zero => cases h
  | succ attempts ih =>
    unfold retryTailCas
    split
    · exact ⟨log, rfl⟩
    · split
      · exact ih (Nat.lt_of_succ_lt_succ h)
      · exact ⟨_, rfl⟩

theorem taken_at_once (h : retryTailCas plan m ids 1 [] log = some log') :
    ∃ k, k ≤ moves.length ∧ retryTailCas plan m ids 1 [] (log ++ (moves.take k).flatten) = some log' := by
  refine ⟨0, Nat.zero_le _, ?_⟩
  rwa [List.take_zero, List.flatten_nil, List.append_nil]

theorem retryTailCas_taken {attempts : Nat} (h : retryTailCas plan m ids attempts moves log = some log') :
    ∃ k, k ≤ moves.length ∧ retryTailCas plan m ids 1 [] (log ++ (moves.take k).flatten) = some log' := by
  induction attempts generalizing moves log with
  | zero => cases h
  | succ attempts ih =>
    unfold retryTailCas at h
    split at h
    · rename_i hplan
      cases h
      have hdone : retryTailCas plan m ids 1 [] log' = some log' := by
        unfold retryTailCas
        rw [hplan]
      exact taken_at_once hdone
    · rename_i row hplan
      split at h
      · rename_i e rows moves
        obtain ⟨k, hk, hlog⟩ := ih h
        refine ⟨k + 1, Nat.succ_le_succ hk, ?_⟩
        rwa [List.take_succ_cons, List.flatten_cons, ← List.append_assoc]
      · have hlands : retryTailCas plan m ids 1 [] log = some log' := by
          unfold retryTailCas
          rw [hplan]
          exact h
        exact taken_at_once hlands

variable {env : LedgerEnv} {id reason droppedBy : String}

theorem dropCardOnce_ends (h : moves.length < 64) :
    ∃ log', dropCardOnce env (some id) reason droppedBy m ids moves log = some log' := by
  unfold dropCardOnce
  cases (some id).filter (· ≠ "") with
  | none => exact ⟨log, rfl⟩
  | some id => exact retryTailCas_ends h

theorem dropCardOnce_taken (h : dropCardOnce env (some id) reason droppedBy m ids moves log = some log') :
    ∃ k, k ≤ moves.length ∧
      dropCardOnce env (some id) reason droppedBy m ids [] (log ++ (moves.take k).flatten) = some log' := by
  unfold dropCardOnce at h ⊢
  cases hid : (some id).filter (· ≠ "") with
  | none =>
    rw [hid] at h
    cases h
    exact ⟨0, Nat.zero_le _, by simp⟩
  | some id =>
    rw [hid] at h
    obtain ⟨k, hk, hlog⟩ := retryTailCas_taken h
    refine ⟨k, hk, ?_⟩
    dsimp only at hlog ⊢
    unfold retryTailCas at hlog ⊢
    exact hlog

/-- The call ends where others append fewer than sixty-four times under it. However it ends, it is the
call of one who is alone, on the log as some of those appends made it: it adds one row of its own where
no drop stands there, and nothing where one does. The card is dropped afterwards, and the call over again
adds nothing, whatever others append under it. -/
theorem drop_once_linearized (hid : Admitted env id) (hne : id ≠ "") (reason droppedBy : String)
    (m : Moment) (ids : Option String × Option String) (moves : List (List Event)) (log : List Event) :
    (moves.length < 64 → ∃ log', dropCardOnce env (some id) reason droppedBy m ids moves log = some log') ∧
    ∀ log', dropCardOnce env (some id) reason droppedBy m ids moves log = some log' →
      (∃ k, k ≤ moves.length ∧
        dropCardOnce env (some id) reason droppedBy m ids [] (log ++ (moves.take k).flatten) = some log' ∧
        (¬(dropLatch env id).AtRest (log ++ (moves.take k).flatten) ∧ log' = log ++ (moves.take k).flatten ∨
          (dropLatch env id).AtRest (log ++ (moves.take k).flatten) ∧ ∃ e : Event,
            log' = log ++ (moves.take k).flatten ++ [e] ∧ e.type = "card_auto_dropped" ∧
              e.data.get "id" = .str id)) ∧
      ¬(dropLatch env id).AtRest log' ∧
      ∀ reason' droppedBy' m' ids' moves',
        dropCardOnce env (some id) reason' droppedBy' m' ids' moves' log' = some log' := by
  refine ⟨dropCardOnce_ends, fun log' h => ?_⟩
  obtain ⟨k, hk, hone⟩ := dropCardOnce_taken h
  have hcases : ¬(dropLatch env id).AtRest (log ++ (moves.take k).flatten) ∧
        log' = log ++ (moves.take k).flatten ∨
      (dropLatch env id).AtRest (log ++ (moves.take k).flatten) ∧ ∃ e : Event,
        log' = log ++ (moves.take k).flatten ++ [e] ∧ e.type = "card_auto_dropped" ∧
          e.data.get "id" = .str id := by
    by_cases hrest : (dropLatch env id).AtRest (log ++ (moves.take k).flatten)
    · obtain ⟨e, hlands, htype, hname⟩ := dropCardOnce_lands reason droppedBy m ids hne hrest
      exact .inr ⟨hrest, e, Option.some.inj (hone.symm.trans hlands), htype, hname⟩
    · exact .inl ⟨hrest, Option.some.inj (hone.symm.trans (dropCardOnce_stands hne hrest))⟩
  have hheld : ¬(dropLatch env id).AtRest log' := by
    rcases hcases with ⟨hrest, rfl⟩ | ⟨-, e, rfl, htype, hname⟩
    · exact hrest
    · exact autoDrop_holds hid htype hname
  exact ⟨⟨k, hk, hone, hcases⟩, hheld, fun _ _ _ _ _ => dropCardOnce_stands hne hheld⟩

end Taken

/-- The operator drops the card while the engine plans to. -/
theorem drop_once_linearized_raced : ∃ log',
    dropCardOnce LedgerEnv.plain (some "card-0") "idle" "engine" {} (none, none) [stoppedRows] [] = some log' ∧
      ¬(dropLatch LedgerEnv.plain "card-0").AtRest log' := by
  have hcard : Admitted LedgerEnv.plain "card-0" := ⟨by decide +kernel, by decide +kernel⟩
  have hraced := drop_once_linearized hcard (by decide) "idle" "engine" {} (none, none) [stoppedRows] []
  obtain ⟨log', h⟩ := hraced.1 (by decide)
  exact ⟨log', h, (hraced.2 log' h).2.1⟩

end Engine

end LoopLab
