import LoopLab.Guarantees.Lineage
import LoopLab.Ledger.Names

/-!
# The references of the published board

The edges between the cards are laid over the whole ledger, and the deleted cards are taken away after that.
-/

set_option autoImplicit false

namespace LoopLab
open Lib

/-- The board names only cards that are on it, lists just the children, and keeps the aliases of a
card apart from the other cards. -/
structure BoardClosed (cards : Cards) : Prop where
  parents : ∀ c ∈ cards.rows, ∀ p, c.parentCardId = some p → cards.has p = true
  children : ∀ c ∈ cards.rows, ∀ k ∈ c.childCardIds, cards.has k = true
  retries : ∀ c ∈ cards.rows, ∀ p, c.retryOf = some p → cards.has p = true
  listed : ∀ p ∈ cards.rows, ∃ kids : List String, kids.Pairwise (· < ·) ∧
    (∀ x, x ∈ kids ↔ ∃ c ∈ cards.rows, c.id = x ∧ c.parentCardId = some p.id) ∧
    p.childCardIds = kids.take CARD_CHILD_LIMIT
  aliases : ∀ c ∈ cards.rows, ∀ d ∈ cards.rows, c.id ≠ d.id → c.id ∉ d.aliases

section Edges
variable (env : LedgerEnv) (inputs : CardInputs)

/-- The cards with their verdicts and lanes, before any edge. -/
def laidCards : Cards := judgedCards env inputs (mergedLedger env inputs) true

/-- The cards filed, before the lineage. -/
def filedCards : Cards :=
  applyCardFilings env (mergedLedger env inputs).aliases.canon
    (applyCardBeliefLineage inputs.st (mergedLedger env inputs).aliases.canon (laidCards env inputs))
    inputs.board

/-- The parent of a card in the lineage of the whole ledger. -/
def ledgerParent : String → Option String :=
  keptParent (mergedLedger env inputs).aliases.canon (filedCards env inputs)

/-- An edge of the ledger: to the parent in the lineage, to a child that is listed, or to the card
that is retried. -/
inductive LedgerEdge : String → String → Prop
  | parent {c t : String} : ledgerParent env inputs c = some t → LedgerEdge c t
  | child {c t : String} :
      t ∈ (childrenOf (filedCards env inputs) (fun k => ledgerParent env inputs k.id) c).take
        CARD_CHILD_LIMIT → LedgerEdge c t
  | retry {c t : String} {row : Card} : (laidCards env inputs).get c = some row →
      retriedCard inputs.st (mergedLedger env inputs).aliases.canon (laidCards env inputs) row = some t →
      LedgerEdge c t

/-- An operator deleted the card, under one of its names. -/
def deletedCard (id : String) : Bool :=
  ((mergedLedger env inputs).controlIds id).any (inputs.board.hypothesesDeleted.contains ·)

/-- No edge leads from a card that stays to one that goes. -/
def NoDeletedEnd : Prop :=
  ∀ c t, (laidCards env inputs).has c = true → deletedCard env inputs c = false →
    LedgerEdge env inputs c t → deletedCard env inputs t = false

end Edges

section Phases
variable {env : LedgerEnv} {inputs : CardInputs}

def ParentOnly (f : Card → Card) : Prop := ∀ c, f c = { c with parentCardId := (f c).parentCardId }

theorem get_fileCard (env : LedgerEnv) (canon : String → String) (cards : Cards) (filing : String × Option String)
    (id : String) : ∃ f, ParentOnly f ∧ (fileCard env canon cards filing).get id = (cards.get id).map f := by
  have hsame : ∃ f, ParentOnly f ∧ cards.get id = (cards.get id).map f :=
    ⟨fun c => c, fun _ => rfl, Option.map_id'.symm⟩
  unfold fileCard
  cases hget : (cardId env filing.1).bind fun id => cards.get (canon id) with
  | none => exact hsame
  | some c =>
    obtain ⟨name, -, hname⟩ := Option.bind_eq_some_iff.mp hget
    have hkey := Table.key_of_get hname
    dsimp only
    rw [Table.get_put]
    split
    · rename_i hid
      refine ⟨fun c => { c with parentCardId := filing.2.filter (· ≠ "") }, fun _ => rfl, ?_⟩
      have hid : id = canon name := hid.trans hkey
      rw [hid, hname]
      rfl
    · exact hsame

theorem get_applyCardFilings (env : LedgerEnv) (canon : String → String) (cards : Cards)
    (board : CardBoard) (id : String) :
    ∃ f, ParentOnly f ∧ (applyCardFilings env canon cards board).get id = (cards.get id).map f := by
  unfold applyCardFilings
  induction board.cardFilings.rows generalizing cards with
  | nil => exact ⟨fun c => c, fun _ => rfl, Option.map_id'.symm⟩
  | cons filing rows ih =>
    obtain ⟨f, hf, hget⟩ := get_fileCard env canon cards filing id
    obtain ⟨g, hg, hrest⟩ := ih (fileCard env canon cards filing)
    refine ⟨g ∘ f, ?_, ?_⟩
    · intro c
      show g (f c) = { c with parentCardId := (g (f c)).parentCardId }
      rw [hg (f c), hf c]
    · rw [List.foldl_cons, hrest, hget, Option.map_map]

theorem get_laid (env : LedgerEnv) (inputs : CardInputs) (id : String) : ∃ f : Card → Card,
    (∀ c, (f c).id = c.id ∧ (f c).aliases = c.aliases) ∧
      (laidCards env inputs).get id = ((mergedLedger env inputs).cards.get id).map f := by
  unfold laidCards judgedCards
  simp only [if_true]
  unfold applyCardStatus applyCardVerdicts applyCardReturns markForgiven
  rw [Table.get_mapRows, Table.get_mapRows, Table.get_mapRows, Table.get_mapRows, Option.map_map,
    Option.map_map, Option.map_map]
  refine ⟨_, ?_, rfl⟩
  intro c
  exact ⟨rfl, rfl⟩

structure Tied (env : LedgerEnv) (inputs : CardInputs) (row c : Card) : Prop where
  id : c.id = row.id
  aliases : c.aliases = row.aliases
  retryOf : c.retryOf =
    retriedCard inputs.st (mergedLedger env inputs).aliases.canon (laidCards env inputs) row
  parentCardId : c.parentCardId = ledgerParent env inputs row.id
  childCardIds : c.childCardIds =
    (childrenOf (filedCards env inputs) (fun k => ledgerParent env inputs k.id) row.id).take
      CARD_CHILD_LIMIT

theorem has_filed (x : String) : (filedCards env inputs).has x = (laidCards env inputs).has x := by
  obtain ⟨f, -, hget⟩ := get_applyCardFilings env (mergedLedger env inputs).aliases.canon
    (applyCardBeliefLineage inputs.st (mergedLedger env inputs).aliases.canon (laidCards env inputs))
    inputs.board x
  unfold Table.has filedCards
  rw [hget]
  unfold applyCardBeliefLineage
  rw [Table.get_mapRows, Option.isSome_map, Option.isSome_map]

def tiedBoard (env : LedgerEnv) (inputs : CardInputs) : Cards :=
  applyCardLineage (mergedLedger env inputs).aliases.canon (filedCards env inputs)

theorem get_tiedBoard {x : String} {row : Card} (h : (laidCards env inputs).get x = some row) :
    ∃ c, (tiedBoard env inputs).get x = some c ∧ Tied env inputs row c := by
  obtain ⟨f, hf, hfiled⟩ := get_applyCardFilings env (mergedLedger env inputs).aliases.canon
    (applyCardBeliefLineage inputs.st (mergedLedger env inputs).aliases.canon (laidCards env inputs))
    inputs.board x
  unfold applyCardBeliefLineage at hfiled
  rw [Table.get_mapRows, h] at hfiled
  have hx : (filedCards env inputs).get x = some _ := hfiled
  unfold tiedBoard
  rw [get_lineage, hx]
  refine ⟨_, rfl, ?_⟩
  rw [hf]
  exact ⟨rfl, rfl, rfl, rfl, rfl⟩

theorem has_tiedBoard (x : String) : (tiedBoard env inputs).has x = (laidCards env inputs).has x := by
  rw [← has_filed]
  unfold Table.has tiedBoard
  rw [get_lineage, Option.isSome_map]

theorem get_publishVisibleCards (cards : Cards) (board : CardBoard) (controlIds : String → List String)
    (x : String) : (publishVisibleCards cards board controlIds).get x =
      if (controlIds x).any (board.hypothesesDeleted.contains ·) then none else cards.get x := by
  unfold publishVisibleCards
  rw [Table.get_collect]
  cases hget : cards.get x with
  | none => split <;> rfl
  | some c =>
    rw [← Table.key_of_get hget]
    rfl

theorem get_deriveCards (x : String) : (deriveCards env inputs).get x =
    if deletedCard env inputs x then none else (tiedBoard env inputs).get x :=
  get_publishVisibleCards _ _ _ x

theorem has_deriveCards (x : String) : (deriveCards env inputs).has x = true ↔
    deletedCard env inputs x = false ∧ (laidCards env inputs).has x = true := by
  rw [← has_tiedBoard]
  unfold Table.has
  rw [get_deriveCards]
  cases deletedCard env inputs x <;> simp

theorem mem_deriveCards {c : Card} (h : c ∈ (deriveCards env inputs).rows) :
    deletedCard env inputs c.id = false ∧
      ∃ row, (laidCards env inputs).get c.id = some row ∧ Tied env inputs row c := by
  have hget := Table.get_of_mem h
  rw [get_deriveCards] at hget
  split at hget
  · cases hget
  · rename_i hdel
    refine ⟨Bool.eq_false_of_not_eq_true hdel, ?_⟩
    have hhas : (laidCards env inputs).has c.id = true := by
      rw [← has_tiedBoard]
      unfold Table.has
      rw [hget]
      rfl
    obtain ⟨row, hrow⟩ := Option.isSome_iff_exists.mp hhas
    obtain ⟨d, hd, htied⟩ := get_tiedBoard hrow
    rw [hget] at hd
    cases hd
    exact ⟨row, hrow, htied⟩

theorem published_of_laid {x : String} {row : Card} (h : (laidCards env inputs).get x = some row)
    (hdel : deletedCard env inputs x = false) :
    ∃ c ∈ (deriveCards env inputs).rows, c.id = x ∧ Tied env inputs row c := by
  obtain ⟨c, hc, htied⟩ := get_tiedBoard h
  have hget : (deriveCards env inputs).get x = some c := by
    rw [get_deriveCards, hdel]
    exact hc
  exact ⟨c, Table.mem_of_get hget, Table.key_of_get hget, htied⟩

theorem LedgerEdge.laid {c t : String} (h : LedgerEdge env inputs c t) :
    (laidCards env inputs).has t = true := by
  cases h with
  | parent h =>
    rw [← has_filed]
    obtain ⟨-, -, -, -, -, -, hin, -⟩ := declared_spec (offCycles_subMap _ _ (keptParent_legal _ _ h))
    unfold Table.has
    exact Option.isSome_iff_ne_none.mpr hin
  | child h =>
    rw [← has_filed]
    obtain ⟨k, hk, rfl, -⟩ := mem_childrenOf.mp (List.mem_of_mem_take h)
    unfold Table.has
    rw [Table.get_of_mem hk]
    rfl
  | retry _ h =>
    have := (Option.filter_eq_some_iff.mp h).2
    simp only [Bool.and_eq_true] at this
    exact this.2

theorem merged_settled (c : Card) (hc : c ∈ (mergedLedger env inputs).cards.rows) :
    c.Settled (mergedLedger env inputs).aliases.canon := by
  apply settled_merged (allFresh_unmerged env _ inputs.st inputs.board) ?_ c hc
  intro x hx
  have hne (s x : String) (hs : cardId env s = some x) : x ≠ "" := cardId_ne hs
  exact canon_holds hne (seedOwner_holds hne inputs.st inputs.board) inputs.board hx

theorem laid_settled {x : String} {row : Card} (h : (laidCards env inputs).get x = some row) :
    row.Settled (mergedLedger env inputs).aliases.canon := by
  obtain ⟨f, hf, hget⟩ := get_laid env inputs x
  rw [h] at hget
  obtain ⟨c, hc, rfl⟩ := Option.map_eq_some_iff.mp hget.symm
  obtain ⟨hid, haliases⟩ := hf c
  obtain ⟨hnamed, hown, hcanon⟩ := merged_settled c (Table.mem_of_get hc)
  exact ⟨by rwa [hid], by rwa [hid], by rwa [hid, haliases]⟩

/-! ## Closed boards -/

theorem take_filter {α : Type} {p : α → Bool} {n : Nat} {xs : List α}
    (h : ∀ x ∈ xs.take n, p x = true) : (xs.filter p).take n = xs.take n := by
  induction xs generalizing n with
  | nil => rfl
  | cons x xs ih =>
    cases n with
    | zero => rfl
    | succ n =>
      rw [List.take_succ_cons] at h
      have hx : p x = true := h x List.mem_cons_self
      rw [List.filter_cons_of_pos hx, List.take_succ_cons, List.take_succ_cons,
        ih fun y hy => h y (List.mem_cons_of_mem x hy)]

theorem noDeletedEnd_of_closed (h : BoardClosed (deriveCards env inputs)) : NoDeletedEnd env inputs := by
  intro c t hc hstays hedge
  obtain ⟨row, hrow⟩ := Option.isSome_iff_exists.mp hc
  obtain ⟨d, hd, hid, htied⟩ := published_of_laid hrow hstays
  have hkey := Table.key_of_get hrow
  have hpublished : (deriveCards env inputs).has t = true := by
    cases hedge with
    | parent hparent =>
      apply h.parents d hd
      rw [htied.parentCardId]
      exact (congrArg (ledgerParent env inputs) hkey).trans hparent
    | child hchild =>
      apply h.children d hd
      rw [htied.childCardIds]
      rw [← hkey] at hchild
      exact hchild
    | retry hget hretry =>
      apply h.retries d hd
      rw [htied.retryOf]
      rw [hrow] at hget
      cases hget
      exact hretry
  exact ((has_deriveCards t).mp hpublished).1

section Closed
variable (h : NoDeletedEnd env inputs)
include h

theorem edge_published {c : Card} {t : String} (hc : c ∈ (deriveCards env inputs).rows)
    (hedge : LedgerEdge env inputs c.id t) : (deriveCards env inputs).has t = true := by
  obtain ⟨hstays, row, hrow, -⟩ := mem_deriveCards hc
  have hlaid : (laidCards env inputs).has c.id = true := by
    unfold Table.has
    rw [hrow]
    rfl
  exact (has_deriveCards t).mpr ⟨h c.id t hlaid hstays hedge, hedge.laid⟩

theorem children_published {p : Card} (hp : p ∈ (deriveCards env inputs).rows) :
    ∃ kids : List String, kids.Pairwise (· < ·) ∧
      (∀ x, x ∈ kids ↔ ∃ c ∈ (deriveCards env inputs).rows, c.id = x ∧ c.parentCardId = some p.id) ∧
      p.childCardIds = kids.take CARD_CHILD_LIMIT := by
  obtain ⟨-, row, hrow, htied⟩ := mem_deriveCards hp
  have hkey := Table.key_of_get hrow
  have hnamed : p.id ≠ "" := by
    rw [← hkey]
    exact (laid_settled hrow).named
  obtain ⟨hsorted, hmem⟩ := children_sorted (mergedLedger env inputs).aliases.canon
    (filedCards env inputs) hnamed
  have hlisted : p.childCardIds =
      (childrenOf (filedCards env inputs) (fun k => ledgerParent env inputs k.id) p.id).take
        CARD_CHILD_LIMIT := by
    rw [htied.childCardIds, ← hkey]
  refine ⟨(childrenOf (filedCards env inputs) (fun k => ledgerParent env inputs k.id) p.id).filter
    (!deletedCard env inputs ·), hsorted.filter _, ?_, ?_⟩
  · intro x
    rw [List.mem_filter, Bool.not_eq_true']
    constructor
    · rintro ⟨hx, hstays⟩
      obtain ⟨k, hk, hkid, -⟩ := mem_childrenOf.mp hx
      have hlaid : (laidCards env inputs).has x = true := by
        rw [← has_filed, ← hkid]
        unfold Table.has
        rw [Table.get_of_mem hk]
        rfl
      obtain ⟨krow, hkrow⟩ := Option.isSome_iff_exists.mp hlaid
      obtain ⟨c, hc, hid, hctied⟩ := published_of_laid hkrow hstays
      refine ⟨c, hc, hid, ?_⟩
      rw [hctied.parentCardId]
      have hxid : krow.id = x := Table.key_of_get hkrow
      rw [hxid]
      exact (hmem x).mp hx
    · rintro ⟨c, hc, rfl, hparent⟩
      obtain ⟨hstays, krow, hkrow, hctied⟩ := mem_deriveCards hc
      refine ⟨(hmem c.id).mpr ?_, hstays⟩
      have hxid : krow.id = c.id := Table.key_of_get hkrow
      rw [hctied.parentCardId, hxid] at hparent
      exact hparent
  · rw [hlisted]
    apply (take_filter _).symm
    intro x hx
    rw [Bool.not_eq_true']
    apply ((has_deriveCards x).mp _).1
    exact edge_published h hp (.child hx)

theorem closed_of_noDeletedEnd : BoardClosed (deriveCards env inputs) where
  parents c hc p hp := by
    obtain ⟨-, row, hrow, htied⟩ := mem_deriveCards hc
    apply edge_published h hc (.parent _)
    rw [htied.parentCardId, show row.id = c.id from Table.key_of_get hrow] at hp
    exact hp
  children c hc k hk := by
    obtain ⟨-, row, hrow, htied⟩ := mem_deriveCards hc
    apply edge_published h hc (.child _)
    rw [htied.childCardIds, show row.id = c.id from Table.key_of_get hrow] at hk
    exact hk
  retries c hc p hp := by
    obtain ⟨-, row, hrow, htied⟩ := mem_deriveCards hc
    apply edge_published h hc (.retry hrow _)
    rw [← htied.retryOf]
    exact hp
  listed p hp := children_published h hp
  aliases c hc d hd hne hin := by
    obtain ⟨-, crow, hcrow, -⟩ := mem_deriveCards hc
    obtain ⟨-, drow, hdrow, htied⟩ := mem_deriveCards hd
    have hcid : crow.id = c.id := Table.key_of_get hcrow
    have hdid : drow.id = d.id := Table.key_of_get hdrow
    rw [htied.aliases] at hin
    obtain ⟨-, hcanon⟩ := (laid_settled hdrow).aliases c.id hin
    have hown := (laid_settled hcrow).own
    rw [hcid] at hown
    apply hne
    rw [← hown, hcanon, hdid]

end Closed

end Phases

/-- A question under a question, of which the upper one is deleted. -/
def deletedParentRows : List Event :=
  [{ type := "hypothesis_added", data := [("id", .str "a"), ("statement", .str "x")] },
    { type := "hypothesis_added",
      data := [("id", .str "b"), ("statement", .str "y"), ("parent_belief_id", .str "a")] },
    { type := "hypothesis_updated", data := [("id", .str "a"), ("status", .str "deleted")] }]

end LoopLab
