import LoopLab.Engine.Commit
import LoopLab.Guarantees.DropWriters

/-!
# A paid build lands only in the world it is valid for

The commit asks for the reason of a drop, and the board goes by its status.
-/

set_option autoImplicit false

namespace LoopLab.Engine
open Lib

/-! ## The world of a build -/

section World
variable (env : LedgerEnv) {key : BuildRequest} (c : Committer key) (r : Reservation) (log : List Event)

/-- Every parent is there and live, in the lifecycle the build was reserved in. -/
def ParentsLive : Prop := ∀ p ∈ r.parentIds, ∃ n, (foldedRun env log).nodes.get p = some n ∧
  r.parentGenerations.get p = some n.attempt ∧ n.tombstoned = false ∧
  (foldedRun env log).aborted p = false

/-- The world a build may become a node in. -/
structure ValidWorld : Prop where
  running : (foldedRun env log).halted = true → pauseDrainsBuilds (foldedRun env log) = true
  funded : ∀ limit, c.maxEvalSeconds = some limit → (foldedRun env log).totalEvalSeconds < limit
  epoch : (foldedRun env log).searchEpoch = key.generation
  parents : ParentsLive env r log
  card : ∃ card, (foldedCards env log).get key.cardId = some card ∧ card.status ≠ .dropped

/-- What the build was for is gone for good. -/
def PermanentlyGone (key : BuildRequest) : Prop :=
  (foldedRun env log).searchEpoch ≠ key.generation ∨ (foldedRun env log).aborted r.nodeId = true ∨
    (foldedCards env log).get key.cardId = none ∨ FoldDropped env log key.cardId ∨
    ¬ ParentsLive env r log

/-- A drop of the card stands that gives no reason the board keeps. -/
def UnreasonedDrop (cardId : String) : Prop :=
  FoldDropped env log cardId ∧ droppedReason env log cardId = none

/-- The row closes the reserved id. -/
def closesBuild (e : Event) : Bool := e.type = "node_failed" && (e.data.get "node_id").eqInt r.nodeId

/-- No row of the claim is a node. -/
def NoNode (own : List (List Event × Event)) : Prop := ∀ p e, (p, e) ∈ own → e.type ≠ "node_created"

/-- A node lands in a valid world only; else the reserved id is closed once, and the card retired only
for what is gone for good. -/
structure CommitSound (own : List (List Event × Event)) : Prop where
  valid : ∀ p e, (p, e) ∈ own → e.type = "node_created" → ValidWorld env c r p
  closed : (∃ p e, (p, e) ∈ own ∧ e.type = "node_building") → NoNode own →
    (own.filter fun row => closesBuild r row.2).length = 1
  retired : NoNode own → ∀ p e, (p, e) ∈ own → e.type = "card_auto_dropped" →
    PermanentlyGone env r p key

/-- The engine would retire the card: the reservation minted it, and no row that names it holds it
dropped. -/
def Retires : Prop := r.cardId ≠ "" ∧ reservationMintedCard env log r.nodeId r.cardId = true ∧
  (dropLatch env r.cardId).AtRest log

end World

section Checks
variable {env : LedgerEnv} {key : BuildRequest} {c : Committer key} {r : Reservation} {log : List Event}

theorem parentGenerationsCurrent_iff :
    parentGenerationsCurrent (foldedRun env log) r.parentGenerations = true ↔ ParentsLive env r log := by
  have hmem (p : Int) (g : Nat) : (p, g) ∈ r.parentGenerations.rows ↔ r.parentGenerations.get p = some g := by
    unfold Dict.get
    constructor
    · intro h
      rw [Table.get_of_mem h]
      rfl
    · intro h
      obtain ⟨row, hrow, rfl⟩ := Option.map_eq_some_iff.mp h
      have hkey := Table.key_of_get hrow
      rw [← hkey]
      exact Table.mem_of_get hrow
  unfold parentGenerationsCurrent ParentsLive
  simp only [List.all_eq_true, Bool.and_eq_true, Option.any_eq_true, decide_eq_true_eq,
    Bool.not_eq_true']
  constructor
  · intro h p hp
    obtain ⟨g, hg⟩ := Option.ne_none_iff_exists'.mp ((r.covered p).mp hp)
    obtain ⟨⟨n, hn, hattempt, htomb⟩, hlive⟩ := h (p, g) ((hmem p g).mpr hg)
    exact ⟨n, hn, hattempt ▸ hg, htomb, hlive⟩
  · rintro h ⟨p, g⟩ hrow
    have hg := (hmem p g).mp hrow
    obtain ⟨n, hn, hattempt, htomb, hlive⟩ := h p ((r.covered p).mpr (by rw [hg]; exact Option.some_ne_none g))
    exact ⟨⟨n, hn, Option.some.inj (hattempt.symm.trans hg), htomb⟩, hlive⟩

theorem dropped_of_reason (hcard : (foldedCards env log).get key.cardId ≠ none)
    (h : (droppedReason env log key.cardId).isSome = true) : FoldDropped env log key.cardId := by
  obtain ⟨card, hget⟩ := Option.ne_none_iff_exists'.mp hcard
  have hid : card.id = key.cardId := Table.key_of_get hget
  rw [← hid, foldDropped_iff (Table.mem_of_get hget), hid]
  intro hnone
  have hmark : (dropsOf env log).mark key.cardId = none := by
    unfold Drops.mark
    rw [hnone]
    rfl
  have hreason : droppedReason env log key.cardId =
      ((dropsOf env log).mark key.cardId).bind DropMark.droppedReason := rfl
  rw [hreason, hmark] at h
  cases h

theorem gone_of_superseded (h : superseded env key log r = true) : PermanentlyGone env r log key := by
  unfold superseded at h
  unfold PermanentlyGone
  simp only [Bool.or_eq_true, decide_eq_true_eq, Bool.not_eq_true', ← Bool.not_eq_true,
    parentGenerationsCurrent_iff] at h
  rcases h with (((hepoch | haborted) | hcard) | hreason) | hparents
  · exact .inl hepoch
  · exact .inr (.inl haborted)
  · refine .inr (.inr (.inl ?_))
    exact Option.not_isSome_iff_eq_none.mp hcard
  · by_cases hcard : (foldedCards env log).get key.cardId = none
    · exact .inr (.inr (.inl hcard))
    · exact .inr (.inr (.inr (.inl (dropped_of_reason hcard hreason))))
  · exact .inr (.inr (.inr (.inr hparents)))

theorem valid_iff (hsuperseded : superseded env key log r = false)
    (htransient : c.transient env log = false) :
    ValidWorld env c r log ↔ ¬ UnreasonedDrop env log key.cardId := by
  unfold superseded at hsuperseded
  simp only [Bool.or_eq_false_iff, decide_eq_false_iff_not, not_not, Bool.not_eq_false',
    parentGenerationsCurrent_iff] at hsuperseded
  obtain ⟨⟨⟨⟨hepoch, -⟩, hcard⟩, hreason⟩, hparents⟩ := hsuperseded
  obtain ⟨card, hget⟩ := Option.isSome_iff_exists.mp hcard
  rw [Option.isSome_eq_false_iff, Option.isNone_iff_eq_none] at hreason
  constructor
  · rintro ⟨-, -, -, -, other, hother, hlive⟩ ⟨⟨dropped, hdropped, hstatus⟩, -⟩
    cases hother.symm.trans hdropped
    exact hlive hstatus
  · intro hdrop
    unfold Committer.transient at htransient
    simp only [Bool.or_eq_false_iff] at htransient
    obtain ⟨hhalt, hbudget⟩ := htransient
    refine ⟨?_, ?_, hepoch, hparents, card, hget, ?_⟩
    · intro hhalted
      rw [hhalted, Bool.true_and, Bool.not_eq_false'] at hhalt
      unfold Committer.drainsBuildsNow at hhalt
      exact (Bool.and_eq_true_iff.mp hhalt).1
    · intro limit hlimit
      unfold Committer.overBudget at hbudget
      rw [hlimit, Option.any_some, decide_eq_false_iff_not] at hbudget
      exact Rat.not_le.mp hbudget
    · intro hstatus
      exact hdrop ⟨⟨card, hget, hstatus⟩, hreason⟩

end Checks

/-! ## The rows of a close -/

section Closes
variable {env : LedgerEnv} {key : BuildRequest} {c : Committer key} {r : Reservation} {j : Journal Event}
variable {reason error : String}

theorem dropOnce_held (hne : r.cardId ≠ "") (h : ¬ (dropLatch env r.cardId).AtRest j.log) :
    c.dropOnce env r.cardId reason j = j := by
  unfold Committer.dropOnce
  rw [(cardAutoDropRow_eq_none env j.log reason "engine" hne).mpr h]

variable (c reason) in
theorem dropOnce_rest (hne : r.cardId ≠ "") (h : (dropLatch env r.cardId).AtRest j.log) :
    ∃ e : Event, c.dropOnce env r.cardId reason j = j.append e ∧ e.type = "card_auto_dropped" := by
  unfold Committer.dropOnce
  cases hrow : cardAutoDropRow env j.log (some r.cardId) reason "engine" with
  | none => exact absurd h ((cardAutoDropRow_eq_none env j.log reason "engine" hne).mp hrow)
  | some row =>
    obtain ⟨type, data⟩ := row
    refine ⟨_, rfl, ?_⟩
    unfold cardAutoDropRow at hrow
    have hid : (some r.cardId).filter (· ≠ "") = some r.cardId := by simp [hne]
    rw [hid] at hrow
    dsimp only at hrow
    split at hrow
    · cases hrow
    · cases hrow
      rfl

structure Terminal (r : Reservation) (e : Event) : Prop where
  closes : closesBuild r e = true
  type : e.type = "node_failed"

theorem terminal_row (log : List Event) :
    Terminal r (c.row log "node_failed" (nodeFailedData r reason error)) where
  closes := by
    have hid : (nodeFailedData r reason error).get "node_id" = .int r.nodeId := rfl
    unfold closesBuild Committer.row
    dsimp only
    rw [hid]
    simp [Json.eqInt, Json.num?]
  type := rfl

variable (c reason error) in
theorem failReservedBuild_keeps {dropCard : Bool} (h : ¬ (dropCard = true ∧ Retires env r j.log)) :
    ∃ p e, (c.failReservedBuild env r reason error dropCard j).own = j.own ++ [(p, e)] ∧ Terminal r e := by
  have hsame : (if r.cardId ≠ "" && dropCard && reservationMintedCard env j.log r.nodeId r.cardId
      then c.dropOnce env r.cardId reason j else j) = j := by
    split
    · rename_i hif
      simp only [Bool.and_eq_true, decide_eq_true_eq] at hif
      obtain ⟨⟨hne, hdrop⟩, hminted⟩ := hif
      apply dropOnce_held hne
      intro hrest
      exact h ⟨hdrop, hne, hminted, hrest⟩
    · rfl
  unfold Committer.failReservedBuild
  rw [hsame]
  exact ⟨_, _, rfl, terminal_row _⟩

variable (c reason error) in
theorem failReservedBuild_retires (h : Retires env r j.log) :
    ∃ d p e, (c.failReservedBuild env r reason error true j).own = j.own ++ [(j.log, d), (p, e)] ∧
      d.type = "card_auto_dropped" ∧ Terminal r e := by
  obtain ⟨hne, hminted, hrest⟩ := h
  obtain ⟨d, hdrop, htype⟩ := dropOnce_rest c reason hne hrest
  have hif : (r.cardId ≠ "" && true && reservationMintedCard env j.log r.nodeId r.cardId) = true := by
    simp [hne, hminted]
  unfold Committer.failReservedBuild
  rw [if_pos hif, hdrop]
  refine ⟨d, (j.append d).log, c.row (j.append d).log "node_failed" (nodeFailedData r reason error), ?_,
    htype, terminal_row _⟩
  dsimp only
  rw [Journal.append_own, Journal.append_own, List.append_assoc]
  rfl

end Closes

/-! ## The rows of a claim -/

section Journals
variable {env : LedgerEnv} {key : BuildRequest} {c : Committer key} {r : Reservation}
variable {own : List (List Event × Event)} {log p : List Event} {b d e : Event}

theorem sound_created (hb : b.type = "node_building") (he : e.type = "node_created") :
    CommitSound env c r [(log, b), (p, e)] ↔ ValidWorld env c r p := by
  have hnode : ¬ NoNode [(log, b), (p, e)] := fun h => h p e (by simp) he
  constructor
  · intro h
    exact h.valid p e (by simp) he
  · intro hvalid
    refine ⟨?_, fun _ h => absurd h hnode, fun h => absurd h hnode⟩
    intro q f hmem htype
    simp only [List.mem_cons, Prod.mk.injEq, List.not_mem_nil, or_false] at hmem
    rcases hmem with ⟨rfl, rfl⟩ | ⟨rfl, rfl⟩
    · exact absurd (hb.symm.trans htype) (by decide)
    · exact hvalid

theorem not_closes_of_type (h : e.type ≠ "node_failed") : closesBuild r e = false := by
  unfold closesBuild
  simp [h]

theorem sound_kept (hb : b.type = "node_building") (he : Terminal r e) :
    CommitSound env c r [(log, b), (p, e)] := by
  have htypes (q : List Event) (f : Event) (h : (q, f) ∈ [(log, b), (p, e)]) :
      f.type = "node_building" ∨ f.type = "node_failed" := by
    simp only [List.mem_cons, Prod.mk.injEq, List.not_mem_nil, or_false] at h
    rcases h with ⟨rfl, rfl⟩ | ⟨rfl, rfl⟩
    · exact .inl hb
    · exact .inr he.type
  have hopens : closesBuild r b = false := by
    apply not_closes_of_type
    rw [hb]
    decide
  constructor
  · intro q f hmem htype
    rcases htypes q f hmem with h | h
    · exact absurd (h.symm.trans htype) (by decide)
    · exact absurd (h.symm.trans htype) (by decide)
  · intro _ _
    simp [hopens, he.closes]
  · intro _ q f hmem htype
    rcases htypes q f hmem with h | h
    · exact absurd (h.symm.trans htype) (by decide)
    · exact absurd (h.symm.trans htype) (by decide)

theorem sound_retired {q : List Event} (hb : b.type = "node_building") (hd : d.type = "card_auto_dropped")
    (he : Terminal r e) : CommitSound env c r [(log, b), (p, d), (q, e)] ↔ PermanentlyGone env r p key := by
  have hmem (s : List Event) (f : Event) (h : (s, f) ∈ [(log, b), (p, d), (q, e)]) :
      f.type = "node_building" ∨ s = p ∧ f.type = "card_auto_dropped" ∨ f.type = "node_failed" := by
    simp only [List.mem_cons, Prod.mk.injEq, List.not_mem_nil, or_false] at h
    rcases h with ⟨rfl, rfl⟩ | ⟨rfl, rfl⟩ | ⟨rfl, rfl⟩
    · exact .inl hb
    · exact .inr (.inl ⟨rfl, hd⟩)
    · exact .inr (.inr he.type)
  have hnode : NoNode [(log, b), (p, d), (q, e)] := by
    intro s f h
    rcases hmem s f h with htype | ⟨-, htype⟩ | htype
    · rw [htype]
      decide
    · rw [htype]
      decide
    · rw [htype]
      decide
  have hopens : closesBuild r b = false := by
    apply not_closes_of_type
    rw [hb]
    decide
  have hdrops : closesBuild r d = false := by
    apply not_closes_of_type
    rw [hd]
    decide
  constructor
  · intro h
    exact h.retired hnode p d (by simp) hd
  · intro hgone
    constructor
    · intro s f h htype
      exact absurd htype (hnode s f h)
    · intro _ _
      simp [hopens, hdrops, he.closes]
    · intro _ s f h htype
      rcases hmem s f h with h | ⟨rfl, -⟩ | h
      · exact absurd (h.symm.trans htype) (by decide)
      · exact hgone
      · exact absurd (h.symm.trans htype) (by decide)

theorem sound_close (reason error : String) (dropCard : Bool) {j : Journal Event} (hb : b.type = "node_building")
    (hown : j.own = [(log, b)]) :
    CommitSound env c r (c.failReservedBuild env r reason error dropCard j).own ↔
      (dropCard = true → Retires env r j.log → PermanentlyGone env r j.log key) := by
  by_cases hretires : dropCard = true ∧ Retires env r j.log
  · obtain ⟨rfl, hretires⟩ := hretires
    obtain ⟨d, p, e, hrows, hd, he⟩ := failReservedBuild_retires c reason error hretires
    rw [hrows, hown, List.singleton_append, sound_retired hb hd he]
    simp [hretires]
  · obtain ⟨p, e, hrows, he⟩ := failReservedBuild_keeps c reason error hretires
    rw [hrows, hown, List.singleton_append]
    apply iff_of_true (sound_kept hb he)
    intro hdrop hstands
    exact absurd ⟨hdrop, hstands⟩ hretires

end Journals

/-! ## The claim -/

section Claim
variable {env : LedgerEnv} {key : BuildRequest} {c : Committer key} {result : SpecBuildResult}
variable {idea : BuiltIdea} {e : Elected key} {w : Others} {log : List Event}

/-- The claim reserves the build. -/
structure Claims (env : LedgerEnv) (c : Committer key) (result : SpecBuildResult) (idea : BuiltIdea)
    (e : Elected key) (w : Others) (log : List Event) : Prop where
  built : result.idea = some idea
  own : result.key = key
  success : result.success = true
  named : key.cardId ≠ ""
  counted : 0 ≤ key.generation
  awaited : (requestPosition env key log).isSome = true
  epoch : key.generation = (foldedRun env log).searchEpoch
  running : ((foldedRun env log).halted && !c.drainsBuildsNow (foldedRun env log)) = false
  funded : c.overBudget (foldedRun env log) = false
  chosen : c.choose log = .reserved e
  same : sameIdea e.reservation.idea idea.toIdea = true
  first : w.late = []

/-- The log the first try of the commit reads. -/
def reservedLog (c : Committer key) (e : Elected key) (w : Others) (log : List Event) : List Event :=
  log ++ [c.row log "node_building" (nodeBuildingData key e.kind e.reservation)] ++ w.opening

def reservedJournal (c : Committer key) (e : Elected key) (w : Others) (log : List Event) : Journal Event where
  log := reservedLog c e w log
  own := [(log, c.row log "node_building" (nodeBuildingData key e.kind e.reservation))]

theorem claim_commits (h : Claims env c result idea e w log) :
    (c.claimRequestedCardBuild env result w log).2 =
      c.createPrecodedNode env e.kind e.reservation result w.moves (reservedJournal c e w log) := by
  unfold Committer.claimRequestedCardBuild
  dsimp only
  rw [h.built]
  dsimp only
  have hawaited : (requestPosition env key log).isNone = false := by
    rw [← Option.not_isSome, h.awaited]
    rfl
  have hguard : ¬ ((decide (result.key ≠ key) || !result.success || decide (key.cardId = "")
      || decide (key.generation < 0)) = true) := by
    simp [h.own, h.success, h.named, h.counted]
  rw [if_neg hguard, if_neg (by rw [hawaited]; decide), if_neg (by simp [h.epoch]),
    if_neg (by rw [h.running]; decide), if_neg (by rw [h.funded]; decide), h.chosen]
  dsimp only
  rw [if_neg (by rw [h.same]; decide), if_neg (by simp [h.first])]
  rfl

theorem claims_of_own (hchosen : c.choose log = .reserved e)
    (h : (c.claimRequestedCardBuild env result w log).2.own ≠ []) :
    ∃ idea, Claims env c result idea e w log := by
  unfold Committer.claimRequestedCardBuild at h
  dsimp only at h
  split at h
  · exact absurd rfl h
  · rename_i idea hidea
    refine ⟨idea, ?_⟩
    rw [hchosen] at h
    dsimp only at h
    repeat' split at h
    all_goals first
      | exact absurd rfl h
      | skip
    rename_i hguard hopen hepoch hhalt hbudget hsame hlate
    simp only [Bool.or_eq_true, decide_eq_true_eq, not_or, not_not, Bool.not_eq_true', not_lt,
      Bool.not_eq_false] at hguard
    obtain ⟨⟨⟨hown, hsuccess⟩, hnamed⟩, hcounted⟩ := hguard
    refine ⟨hidea, hown, hsuccess, hnamed, hcounted, ?_, ?_, ?_, ?_, hchosen, ?_, ?_⟩
    · exact Option.isSome_iff_ne_none.mpr (by simpa using hopen)
    · simpa using hepoch
    · simpa using hhalt
    · simpa using hbudget
    · simpa using hsame
    · simpa using hlate

/-- The checks of the commit pass. -/
def Committable (env : LedgerEnv) (c : Committer key) (r : Reservation) (log : List Event) : Prop :=
  superseded env key log r = false ∧ c.transient env log = false

variable {r : Reservation}

theorem plan_adds (h : Committable env c r log) : c.plan env r result idea log =
    .adds (c.row log "node_created" (nodeCreatedData key r result idea c.origin)) .created := by
  unfold Committer.plan
  rw [h.1, h.2]
  rfl

theorem plan_ends (h : ¬ Committable env c r log) : c.plan env r result idea log =
    .ends (.closed (superseded env key log r)) := by
  have hif : (superseded env key log r || c.transient env log) = true := by
    by_contra hnot
    rw [Bool.not_eq_true, Bool.or_eq_false_iff] at hnot
    exact h hnot
  unfold Committer.plan
  rw [if_pos hif]

/-- The commit of a reservation that was read as `log` is not led astray: no drop without a reason
stands where its row lands, and what it retires when its tries are spent is gone for good. -/
structure Unmisled (env : LedgerEnv) (c : Committer key) (r : Reservation) (result : SpecBuildResult)
    (idea : BuiltIdea) (moves : List (List Event)) (log : List Event) : Prop where
  reasoned : ∀ lost rest, moves = lost ++ rest → Journal.Lost (c.plan env r result idea) lost log →
    lost.length < casAttempts → Journal.Quiet rest → Committable env c r (log ++ lost.flatten) →
    ¬ UnreasonedDrop env (log ++ lost.flatten) key.cardId
  spent : ∀ lost rest, moves = lost ++ rest → Journal.Lost (c.plan env r result idea) lost log →
    lost.length = casAttempts → Retires env r (log ++ lost.flatten) →
    PermanentlyGone env r (log ++ lost.flatten) key

theorem unmisled_iff {moves lost rest : List (List Event)} (hmoves : moves = lost ++ rest)
    (hlost : Journal.Lost (c.plan env r result idea) lost log)
    (hdecides : Journal.Decides (c.plan env r result idea) casAttempts log lost rest) :
    Unmisled env c r result idea moves log ↔
      (lost.length < casAttempts → Committable env c r (log ++ lost.flatten) →
        ¬ UnreasonedDrop env (log ++ lost.flatten) key.cardId) ∧
      (lost.length = casAttempts → Retires env r (log ++ lost.flatten) →
        PermanentlyGone env r (log ++ lost.flatten) key) := by
  constructor
  · rintro ⟨hreasoned, hspent⟩
    refine ⟨?_, hspent lost rest hmoves hlost⟩
    intro hlt hpasses
    rcases hdecides with hlength | ⟨-, ⟨a, hends⟩ | ⟨-, hquiet⟩⟩
    · omega
    · rw [plan_adds hpasses] at hends
      cases hends
    · exact hreasoned lost rest hmoves hlost hlt hquiet hpasses
  · rintro ⟨hreasoned, hspent⟩
    have honly {lost' rest' : List (List Event)} (hmoves' : moves = lost' ++ rest')
        (hlost' : Journal.Lost (c.plan env r result idea) lost' log)
        (hdecides' : Journal.Decides (c.plan env r result idea) casAttempts log lost' rest') :
        lost' = lost :=
      (hdecides.unique hdecides' (hmoves.symm.trans hmoves') hlost hlost').1
    constructor
    · intro lost' rest' hmoves' hlost' hlt hquiet hpasses
      have hsame := honly hmoves' hlost' (.inr ⟨hlt, .inr ⟨⟨_, _, plan_adds hpasses⟩, hquiet⟩⟩)
      subst hsame
      exact hreasoned hlt hpasses
    · intro lost' rest' hmoves' hlost' hlength hretires
      have hsame := honly hmoves' hlost' (.inl hlength)
      subst hsame
      exact hspent hlength hretires

theorem Claims.valid (h : Claims env c result idea e w log) (moves : List (List Event)) (j : Journal Event) :
    c.createPrecodedNode env e.kind e.reservation result moves j =
      match j.retry (c.plan env e.reservation result idea) casAttempts moves with
      | (some .created, j) => j
      | (some (.closed true), j) => c.failReservedBuild env e.reservation "superseded"
          "speculative build became stale before commit" true j
      | (some (.closed false), j) => c.failReservedBuild env e.reservation "frozen"
          "speculative build frozen before commit (pause/stop/budget)" false j
      | (none, j) => c.failReservedBuild env e.reservation "superseded"
          "speculative node commit lost its event-tail CAS" true j := by
  have hidea : idea.cardId = some result.key.cardId := by
    have hsame := h.same
    unfold sameIdea at hsame
    simp only [Bool.and_eq_true, decide_eq_true_eq] at hsame
    rw [h.own, ← e.ofIdea, hsame.1.1.1.1.1]
  have hroles := result.paired h.success (by rw [h.built]; rfl)
  have hcard : e.reservation.cardId = result.key.cardId := by rw [h.own, e.ofCard]
  have hcounted : ¬ result.key.generation < 0 := by
    rw [h.own]
    exact Int.not_lt.mpr h.counted
  have hguard : ¬ ((!result.success || !result.roles || decide (e.reservation.cardId ≠ result.key.cardId)
      || decide (idea.cardId ≠ some result.key.cardId) || decide (e.reservation.kind ≠ e.kind)
      || decide (result.key.generation < 0)) = true) := by
    simp [h.success, hroles, hcard, hidea, e.ofKind, hcounted]
  unfold Committer.createPrecodedNode
  rw [h.built]
  dsimp only
  refine (if_neg hguard).trans ?_
  rcases j.retry (c.plan env e.reservation result idea) casAttempts moves with ⟨ending, j⟩
  rcases ending with _ | _ | superseded
  · rfl
  · rfl
  · cases superseded <;> rfl

theorem commit_sound (h : Claims env c result idea e w log) {b : Event} {start : List Event}
    {j : Journal Event} (hb : b.type = "node_building") (hown : j.own = [(start, b)]) (moves : List (List Event)) :
    CommitSound env c e.reservation (c.createPrecodedNode env e.kind e.reservation result moves j).own ↔
      Unmisled env c e.reservation result idea moves j.log := by
  rw [h.valid]
  obtain ⟨lost, rest, hmoves, hlost, hdecides⟩ :=
    Journal.retry_cases (c.plan env e.reservation result idea) casAttempts moves j.log
  rw [unmisled_iff hmoves hlost hdecides]
  subst hmoves
  have hkept : (j.others lost.flatten).own = [(start, b)] := hown
  rcases hdecides with hlength | ⟨hlt, ⟨a, hends⟩ | ⟨⟨row, a, hadds⟩, hquiet⟩⟩
  · -- every try is lost: the close takes the card with it
    rw [Journal.retry_spent hlost hlength]
    dsimp only
    rw [sound_close _ _ _ hb hkept, Journal.others_log]
    constructor
    · intro hgone
      refine ⟨fun hlt => absurd hlength (Nat.ne_of_lt hlt), fun _ => hgone rfl⟩
    · rintro ⟨-, hspent⟩ -
      exact hspent hlength
  · have hpasses : ¬ Committable env c e.reservation (j.log ++ lost.flatten) := by
      intro hpasses
      rw [plan_adds hpasses] at hends
      cases hends
    rw [Journal.retry_ends hlost hlt hends]
    rw [plan_ends hpasses] at hends
    cases hends
    apply iff_of_true
    · cases hsuperseded : superseded env key (j.log ++ lost.flatten) e.reservation with
      | true =>
        dsimp only
        rw [sound_close _ _ _ hb hkept]
        intro _ _
        exact gone_of_superseded hsuperseded
      | false =>
        dsimp only
        rw [sound_close _ _ _ hb hkept]
        exact nofun
    · exact ⟨fun _ h => absurd h hpasses, fun hlength => absurd hlength (Nat.ne_of_lt hlt)⟩
  · have hpasses : Committable env c e.reservation (j.log ++ lost.flatten) := by
      by_contra hpasses
      rw [plan_ends hpasses] at hadds
      cases hadds
    rw [Journal.retry_adds hlost hlt hadds hquiet]
    rw [plan_adds hpasses] at hadds
    cases hadds
    dsimp only
    rw [Journal.append_own, Journal.others_own, Journal.others_log, hown, List.singleton_append,
      sound_created hb rfl, valid_iff hpasses.1 hpasses.2]
    constructor
    · intro hdrop
      exact ⟨fun _ _ => hdrop, fun hlength => absurd hlength (Nat.ne_of_lt hlt)⟩
    · rintro ⟨hreasoned, -⟩
      exact hreasoned hlt hpasses

/-- The claim of a finished build leaves what is sound for the build it reserves. -/
def ClaimSound (env : LedgerEnv) (c : Committer key) (result : SpecBuildResult) (w : Others)
    (log : List Event) : Prop :=
  ∀ e, c.choose log = .reserved e →
    CommitSound env c e.reservation (c.claimRequestedCardBuild env result w log).2.own

/-- A paid build becomes a node in a world it is valid for, or its reservation is closed once and its
card kept but for what is gone for good, just where the commit is not led astray. -/
theorem claim_sound_iff (env : LedgerEnv) {key : BuildRequest} (c : Committer key)
    (result : SpecBuildResult) (w : Others) (log : List Event) :
    ClaimSound env c result w log ↔ ∀ idea e, Claims env c result idea e w log →
      Unmisled env c e.reservation result idea w.moves (reservedLog c e w log) := by
  constructor
  · intro hsound idea e hclaims
    have h := hsound e hclaims.chosen
    rw [claim_commits hclaims] at h
    exact (commit_sound hclaims rfl rfl w.moves).mp h
  · intro hwell e hchosen
    by_cases hown : (c.claimRequestedCardBuild env result w log).2.own = []
    · rw [hown]
      refine ⟨?_, ?_, ?_⟩
      · intro p e h
        cases h
      · rintro ⟨p, e, h, -⟩
        cases h
      · intro _ p e h
        cases h
    · obtain ⟨idea, hclaims⟩ := claims_of_own hchosen hown
      rw [claim_commits hclaims]
      exact (commit_sound hclaims rfl rfl w.moves).mpr (hwell idea e hclaims)

end Claim

/-! ## Two builds led astray -/

section Examples

/-- A card and its open request. -/
def requestedRows : List Event :=
  [{ seq := 0, type := "card_added", data := [("id", .str "card-0")] },
   { seq := 1, type := "card_build_requested",
     data := [("card_id", .str "card-0"), ("generation", .int 0)] }]

def cardZero : BuildRequest := ⟨"card-0", 0⟩

def draftIdea : Idea where
  operator := "draft"
  cardId := some "card-0"

def draftReservation : Reservation where
  nodeId := 0
  kind := "draft"
  cardId := "card-0"
  idea := draftIdea
  covered p := by
    constructor
    · intro h
      cases h
    · intro h
      exact absurd rfl h

def draftCommitter : Committer cardZero where
  choose _ := .reserved
    { kind := "draft", reservation := draftReservation, ofKind := rfl, ofCard := rfl, ofIdea := rfl }

def draftResult : SpecBuildResult where
  key := cardZero
  success := true
  idea := some { toIdea := draftIdea, payload := [("operator", .str "draft"), ("card_id", .str "card-0")] }
  roles := true
  code := "print(0)"
  paired _ _ := rfl

/-- The operator drops the card behind the marker, and gives no reason. -/
def silentDrop : Others where
  opening :=
    [{ seq := 3, type := "card_dropped",
       data := [("id", .str "card-0"), ("dropped_by", .str "operator")] }]

def busyLog : Others where
  moves := List.replicate 64 [{ seq := 3, type := "llm_usage" }]

structure Standing where
  epoch : Int
  aborted : Bool
  card : Option CardStatus
  deriving DecidableEq

def standingAt (log : List Event) : Standing where
  epoch := (foldedRun LedgerEnv.plain log).searchEpoch
  aborted := (foldedRun LedgerEnv.plain log).aborted 0
  card := ((foldedCards LedgerEnv.plain log).get "card-0").map Card.status

def ownRows (w : Others) : List (String × Standing) :=
  (draftCommitter.claimRequestedCardBuild LedgerEnv.plain draftResult w requestedRows).2.own.map fun row =>
    (row.2.type, standingAt row.1)

theorem mem_ownRows (w : Others) {type : String} {standing : Standing} (h : (type, standing) ∈ ownRows w) :
    ∃ p e, (p, e) ∈ (draftCommitter.claimRequestedCardBuild LedgerEnv.plain draftResult w requestedRows).2.own ∧
      e.type = type ∧ standingAt p = standing := by
  obtain ⟨⟨p, e⟩, hmem, heq⟩ := List.mem_map.mp h
  obtain ⟨rfl, rfl⟩ := Prod.mk.inj heq
  exact ⟨p, e, hmem, rfl, rfl⟩

/-- The node of a card that stands dropped lands. -/
theorem silent_drop_committed :
    ¬ ClaimSound LedgerEnv.plain draftCommitter draftResult silentDrop requestedRows := by
  intro h
  have hrows : ownRows silentDrop = [("node_building", ⟨0, false, some .proposed⟩),
      ("node_created", ⟨0, false, some .dropped⟩)] := by decide +kernel
  obtain ⟨p, e, hmem, htype, hstands⟩ := mem_ownRows silentDrop (hrows ▸ List.mem_cons_of_mem _ List.mem_cons_self)
  obtain ⟨card, hget, hlive⟩ := ((h _ rfl).valid p e hmem htype).card
  have hcard : ((foldedCards LedgerEnv.plain p).get "card-0").map Card.status = some .dropped :=
    congrArg Standing.card hstands
  rw [show (foldedCards LedgerEnv.plain p).get "card-0" = some card from hget] at hcard
  exact hlive (Option.some.inj hcard)

end Examples

end LoopLab.Engine
