import LoopLab.Ledger.Names
import LoopLab.Ledger.Status

/-!
# Drops and reopens

Once the whole log is read an id resolves as the merged board does, so a reopen means the card that bears the name.
-/

set_option autoImplicit false

namespace LoopLab
open Lib

/-- The drops that stand once the reopens are applied, with every drop by the engine. -/
def standingDrops (env : LedgerEnv) (aliases : CardAliases) (board : CardBoard) : Drops :=
  board.cardsReopened.foldl (reopenCard env aliases)
    (board.cardsDropped.foldl (dropCard env aliases) {})

structure DropMark where
  droppedReason : Option String
  droppedBy : String
  reopenable : Bool

namespace Drops
variable (s : Drops)

def engineDropped (id : String) : Bool := s.engine.any (·.1 = id)

/-- The mark `_apply_card_drops` leaves on a card. -/
def mark (id : String) : Option DropMark :=
  (s.dropped.get id).map fun r =>
    { droppedReason := (r.reason.map (Py.cut 400)).filter (· ≠ "")
      droppedBy := dropAuthor r
      reopenable := dropAuthor r = "operator" && !s.engineDropped id }

/-- `Card.reopenable`; a card that is not dropped is not. -/
def reopenable (id : String) : Bool := (s.mark id).any DropMark.reopenable

def Held (id : String) : Prop :=
  ∃ i r, (id, i) ∈ s.engine ∧ s.dropped.get id = some r ∧ i ≤ r.eventIndex

structure Below (n : Nat) : Prop where
  engine : ∀ e ∈ s.engine, e.2 < n
  dropped : ∀ id r, s.dropped.get id = some r → r.eventIndex < n

end Drops

theorem reopenCard_cases (env : LedgerEnv) (aliases : CardAliases) (s : Drops) (r : DropRow) :
    reopenCard env aliases s r = s ∨ ∃ id prior, s.dropped.get id = some prior ∧
      prior.eventIndex < r.eventIndex ∧ dropAuthor prior = "operator" ∧
      (∀ e ∈ s.engine, e.1 = id → r.eventIndex ≤ e.2) ∧
      reopenCard env aliases s r = { s with dropped := Table.erase s.dropped id } := by
  unfold reopenCard
  split
  · exact .inl rfl
  · rename_i id prior hprior
    obtain ⟨name, -, hname⟩ := Option.bind_eq_some_iff.mp hprior
    obtain ⟨row, hrow, heq⟩ := Option.map_eq_some_iff.mp hname
    cases heq
    split
    · rename_i hundo
      simp only [Bool.and_eq_true, decide_eq_true_eq, Bool.not_eq_true', List.any_eq_false,
        not_and, Nat.not_lt] at hundo
      exact .inr ⟨id, prior, hrow, hundo.1.1, hundo.1.2, hundo.2, rfl⟩
    · exact .inl rfl

/-! ## Names that a row may carry -/

def Admitted (env : LedgerEnv) (x : String) : Prop :=
  cardReplayId env.toEnv (.str x) = some x ∧ cardId env x = some x

theorem admitted_cardId {env : LedgerEnv} (s x : String) (h : cardId env s = some x) :
    Admitted env x := by
  unfold cardId at h
  dsimp only at h
  split at h
  · rename_i hok
    cases h
    have hlen : (Py.strip s).length ≤ 256 := by
      simp only [Bool.and_eq_true, decide_eq_true_eq] at hok
      exact hok.1.2
    constructor
    · unfold cardReplayId CARD_REPLAY_ID_MAX
      simp only [Json.str?, Option.bind_eq_bind, Option.bind_some]
      rw [if_neg (by omega), strip_idem]
      simp only [Bool.and_eq_true, decide_eq_true_eq] at hok ⊢
      rw [if_pos ⟨hok.1.1, hok.2⟩]
    · unfold cardId
      dsimp only
      rw [strip_idem, if_pos hok]
  · cases h

/-! ## Names at the end of the log -/

section Late
variable {env : LedgerEnv} {identity : CardIdentity} {board : CardBoard} {n : Nat}

def placedPairs (env : LedgerEnv) (identity : CardIdentity) (rows : List (Bool × MergeRow)) :
    List ((String × String) × Nat) :=
  rows.flatMap fun row => (mergePairs env identity row).map (·, row.2.eventIndex)

def notePlaced (edges : Dict String (Dict String Nat)) (p : (String × String) × Nat) :
    Dict String (Dict String Nat) :=
  edges.set p.1.1 (Dict.offer Nat.min ((edges.get p.1.1).getD Table.empty) (p.1.2, p.2))

theorem noteEdges_placed (rows : List (Bool × MergeRow)) (edges : Dict String (Dict String Nat)) :
    rows.foldl (noteEdges env identity) edges =
      (placedPairs env identity rows).foldl notePlaced edges := by
  unfold placedPairs
  rw [List.foldl_flatMap]
  simp only [List.foldl_map]
  rfl

structure LeastTargets (d : Dict String String) (edges : Dict String (Dict String Nat)) : Prop where
  absent : ∀ x, d.get x = none → edges.get x = none
  least : ∀ x m, d.get x = some m → ∃ inner, edges.get x = some inner ∧ inner.get m ≠ none ∧
    ∀ t, inner.get t ≠ none → decide (m ≤ t) = true

theorem mem_offer {inner : Dict String Nat} {t u : String} {i : Nat} :
    (Dict.offer Nat.min inner (t, i)).get u ≠ none ↔ u = t ∨ inner.get u ≠ none := by
  rw [Dict.get_offer]
  by_cases h : u = t
  · simp [h]
  · simp [h]

theorem LeastTargets.note {d : Dict String String} {edges : Dict String (Dict String Nat)}
    (h : LeastTargets d edges) (p : (String × String) × Nat) :
    LeastTargets (Dict.offer Py.minStr d p.1) (notePlaced edges p) := by
  obtain ⟨⟨y, t⟩, i⟩ := p
  constructor
  · intro x hx
    rw [Dict.get_offer] at hx
    unfold notePlaced
    rw [Dict.get_set]
    split at hx
    · cases hx
    · rename_i hne
      rw [if_neg hne]
      exact h.absent x hx
  · intro x m hx
    rw [Dict.get_offer] at hx
    unfold notePlaced
    rw [Dict.get_set]
    split at hx
    · rename_i hxy
      rw [if_pos hxy]
      refine ⟨_, rfl, ?_⟩
      cases hd : d.get y with
      | none =>
        rw [hd] at hx
        cases hx
        rw [h.absent y hd]
        refine ⟨mem_offer.mpr (.inl rfl), ?_⟩
        intro u hu
        rcases mem_offer.mp hu with rfl | hu
        · exact decide_eq_true (String.le_refl _)
        · exact absurd rfl hu
      | some m₀ =>
        rw [hd] at hx
        cases hx
        obtain ⟨inner, hinner, hin, hleast⟩ := h.least y m₀ hd
        obtain ⟨hle₀, hlet⟩ := linearBool_string.least_le m₀ t
        rw [hinner]
        constructor
        · apply mem_offer.mpr
          show Py.minStr m₀ t = t ∨ inner.get (Py.minStr m₀ t) ≠ none
          unfold Py.minStr LinearBool.least
          split
          · exact .inr hin
          · exact .inl rfl
        · intro u hu
          rcases mem_offer.mp hu with rfl | hu
          · exact hlet
          · exact linearBool_string.trans _ _ _ hle₀ (hleast u hu)
    · rename_i hne
      rw [if_neg hne]
      exact h.least x m hx

def EdgesBy (n : Nat) (edges : Dict String (Dict String Nat)) : Prop :=
  ∀ x inner t i, edges.get x = some inner → inner.get t = some i → i ≤ n

theorem EdgesBy.note {edges : Dict String (Dict String Nat)} (h : EdgesBy n edges)
    {p : (String × String) × Nat} (hp : p.2 ≤ n) : EdgesBy n (notePlaced edges p) := by
  obtain ⟨⟨y, t⟩, i⟩ := p
  intro x inner u j hx hu
  unfold notePlaced at hx
  rw [Dict.get_set] at hx
  split at hx
  · cases hx
    rw [Dict.get_offer] at hu
    have hold (k : Nat) (w : String) (hk : ((edges.get y).getD Table.empty).get w = some k) : k ≤ n := by
      cases hget : edges.get y with
      | none =>
        rw [hget] at hk
        cases hk
      | some inner =>
        rw [hget] at hk
        exact h y inner w k hget hk
    split at hu
    · cases hu
      dsimp only
      cases hget : ((edges.get y).getD Table.empty).get t with
      | none => exact hp
      | some k => exact Nat.le_trans (Nat.min_le_left k i) (hold k t hget)
    · exact hold j u hu
  · exact h x inner u j hx hu

theorem placedPairs_agree (env : LedgerEnv) (identity : CardIdentity) {rows : List (Bool × MergeRow)}
    (h : ∀ r ∈ rows, r.2.eventIndex ≤ n) :
    LeastTargets (Dict.offers Py.minStr Table.empty (rows.flatMap (mergePairs env identity)))
        (rows.foldl (noteEdges env identity) Table.empty) ∧
      EdgesBy n (rows.foldl (noteEdges env identity) Table.empty) := by
  have hrun (ps : List ((String × String) × Nat)) (hps : ∀ p ∈ ps, p.2 ≤ n) (d : Dict String String)
      (edges : Dict String (Dict String Nat)) (hd : LeastTargets d edges) (he : EdgesBy n edges) :
      LeastTargets (Dict.offers Py.minStr d (ps.map Prod.fst)) (ps.foldl notePlaced edges) ∧
        EdgesBy n (ps.foldl notePlaced edges) := by
    induction ps generalizing d edges with
    | nil => exact ⟨hd, he⟩
    | cons p ps ih =>
      apply ih _ _ _ (hd.note p) (he.note (hps p List.mem_cons_self))
      intro q hq
      exact hps q (List.mem_cons_of_mem p hq)
  have hfst : (placedPairs env identity rows).map Prod.fst = rows.flatMap (mergePairs env identity) := by
    unfold placedPairs
    rw [List.map_flatMap]
    simp only [List.map_map]
    apply congrArg (List.flatMap · rows)
    funext row
    exact List.map_id _
  rw [noteEdges_placed, ← hfst]
  apply hrun
  · intro p hp
    obtain ⟨row, hrow, hp⟩ := List.mem_flatMap.mp hp
    obtain ⟨e, -, rfl⟩ := List.mem_map.mp hp
    exact h row hrow
  · constructor
    · intro x _
      rfl
    · intro x m hm
      cases hm
  · intro x inner t i hx
    cases hx

theorem stepAt_late (hcards : ∀ r ∈ board.cardsMerged, r.eventIndex ≤ n)
    (hhypotheses : ∀ r ∈ board.hypothesesMerged, r.eventIndex ≤ n) :
    (cardMergeAliases env identity board).stepAt n = (cardMergeAliases env identity board).aliasOf.get := by
  have hrows (r : Bool × MergeRow) (hr : r ∈ nativeFirst board.cardsMerged board.hypothesesMerged) :
      r.2.eventIndex ≤ n := by
    unfold nativeFirst at hr
    rcases List.mem_append.mp hr with hr | hr
    · obtain ⟨row, hrow, rfl⟩ := List.mem_map.mp hr
      exact hcards row hrow
    · obtain ⟨row, hrow, rfl⟩ := List.mem_map.mp hr
      exact hhypotheses row hrow
  obtain ⟨hagree, hby⟩ := placedPairs_agree env identity hrows
  funext x
  have halias : (cardMergeAliases env identity board).aliasOf.get x = _ :=
    Dict.get_update (identityBridges identity) (Dict.offers Py.minStr Table.empty
      ((nativeFirst board.cardsMerged board.hypothesesMerged).flatMap (mergePairs env identity))) x
  rw [halias]
  unfold CardAliases.stepAt cardMergeAliases
  dsimp only
  cases hd : (Dict.offers Py.minStr Table.empty
      ((nativeFirst board.cardsMerged board.hypothesesMerged).flatMap (mergePairs env identity))).get x with
  | none =>
    rw [hagree.absent x hd]
    rfl
  | some m =>
    obtain ⟨inner, hinner, hin, hleast⟩ := hagree.least x m hd
    rw [hinner, Option.getD_some]
    have hall : inner.rows.filter (fun e => decide (e.2 ≤ n)) = inner.rows := by
      apply List.filter_eq_self.mpr
      intro e he
      apply decide_eq_true
      apply hby x inner e.1 e.2 hinner
      unfold Dict.get
      rw [Table.get_of_mem he]
      rfl
    rw [hall]
    have hm : m ∈ inner.rows.map Prod.fst := Dict.mem_keys.mpr hin
    cases hkeys : inner.rows.map Prod.fst with
    | nil =>
      rw [hkeys] at hm
      cases hm
    | cons t ts =>
      obtain ⟨hmem, hle⟩ := linearBool_string.foldl_least ts t
      rw [← hkeys] at hmem hle
      have hfirst := hle m hm
      have hsecond := hleast _ (Dict.mem_keys.mp hmem)
      exact congrArg some (linearBool_string.antisymm _ _ hfirst hsecond)

theorem canonAt_late (hcards : ∀ r ∈ board.cardsMerged, r.eventIndex ≤ n)
    (hhypotheses : ∀ r ∈ board.hypothesesMerged, r.eventIndex ≤ n) (x : String) :
    (cardMergeAliases env identity board).canonAt x n = (cardMergeAliases env identity board).canon x := by
  have hwalk := (canonAt_resolves (cardMergeAliases env identity board) n).ends x
  rw [stepAt_late hcards hhypotheses] at hwalk
  exact hwalk.unique (follows_chase _ x)

/-! ## What a row can mean -/

def EdgesTo (P : String → Prop) (edges : Dict String (Dict String Nat)) : Prop :=
  ∀ x inner t, edges.get x = some inner → inner.get t ≠ none → P t

theorem EdgesTo.note {P : String → Prop} {edges : Dict String (Dict String Nat)} (h : EdgesTo P edges)
    {p : (String × String) × Nat} (hp : P p.1.2) : EdgesTo P (notePlaced edges p) := by
  obtain ⟨⟨y, t⟩, i⟩ := p
  intro x inner u hx hu
  unfold notePlaced at hx
  rw [Dict.get_set] at hx
  split at hx
  · cases hx
    rcases mem_offer.mp hu with rfl | hu
    · exact hp
    · cases hget : edges.get y with
      | none =>
        rw [hget] at hu
        exact absurd rfl hu
      | some inner =>
        rw [hget] at hu
        exact h y inner u hget hu
  · exact h x inner u hx hu

section Holds
variable {P : String → Prop} (hP : ∀ s x, cardId env s = some x → P x)
  (howner : ∀ x y, identity.seedOwner.get x = some y → P y)
include hP howner

theorem edgesTo_noteEdges (rows : List (Bool × MergeRow)) :
    EdgesTo P (rows.foldl (noteEdges env identity) Table.empty) := by
  have hrun (ps : List ((String × String) × Nat)) (hps : ∀ p ∈ ps, P p.1.2)
      (edges : Dict String (Dict String Nat)) (he : EdgesTo P edges) :
      EdgesTo P (ps.foldl notePlaced edges) := by
    induction ps generalizing edges with
    | nil => exact he
    | cons p ps ih =>
      apply ih _ _ (he.note (hps p List.mem_cons_self))
      intro q hq
      exact hps q (List.mem_cons_of_mem p hq)
  rw [noteEdges_placed]
  apply hrun
  · intro p hp
    obtain ⟨row, -, hp⟩ := List.mem_flatMap.mp hp
    obtain ⟨e, he, rfl⟩ := List.mem_map.mp hp
    exact mergePairs_holds hP howner he
  · intro x inner t hx
    cases hx

theorem stepAt_holds (index : Nat) (x y : String)
    (h : (cardMergeAliases env identity board).stepAt index x = some y) : P y := by
  have hedges := edgesTo_noteEdges hP howner (nativeFirst board.cardsMerged board.hypothesesMerged)
  unfold CardAliases.stepAt at h
  dsimp only at h
  split at h
  · exact identityAlias_holds howner x y h
  · rename_i t ts hactive
    cases h
    have hmem := (linearBool_string.foldl_least ts t).1
    rw [← hactive] at hmem
    obtain ⟨e, he, heq⟩ := List.mem_map.mp hmem
    have he := (List.mem_filter.mp he).1
    cases hget : (cardMergeAliases env identity board).mergeEdges.get x with
    | none =>
      rw [hget] at he
      cases he
    | some inner =>
      rw [hget] at he
      apply hedges x inner _ hget
      apply Dict.mem_keys.mp
      exact List.mem_map.mpr ⟨e, he, heq⟩

theorem meantCard_holds {r : DropRow} {id : String}
    (h : meantCard env (cardMergeAliases env identity board) r = some id) : P id := by
  unfold meantCard at h
  obtain ⟨hmap, -⟩ := Option.filter_eq_some_iff.mp h
  obtain ⟨x, hx, rfl⟩ := Option.map_eq_some_iff.mp hmap
  exact Lib.Follows.holds (stepAt_holds hP howner r.eventIndex)
    ((canonAt_resolves _ r.eventIndex).ends x) (hP r.id x hx)

theorem standing_holds {id : String} {r : DropRow}
    (h : (standingDrops env (cardMergeAliases env identity board) board).dropped.get id = some r) :
    P id := by
  have hdrops (rows : List DropRow) (s : Drops) (hs : ∀ id r, s.dropped.get id = some r → P id) :
      ∀ id r, (rows.foldl (dropCard env (cardMergeAliases env identity board)) s).dropped.get id =
        some r → P id := by
    induction rows generalizing s with
    | nil => exact hs
    | cons q rows ih =>
      apply ih
      intro id r hr
      unfold dropCard at hr
      split at hr
      · exact hs id r hr
      · rename_i name hname
        rw [Dict.get_set] at hr
        split at hr
        · rename_i hid
          rw [hid]
          exact meantCard_holds hP howner hname
        · exact hs id r hr
  have hreopens (rows : List DropRow) (s : Drops) (hs : ∀ id r, s.dropped.get id = some r → P id) :
      ∀ id r, (rows.foldl (reopenCard env (cardMergeAliases env identity board)) s).dropped.get id =
        some r → P id := by
    induction rows generalizing s with
    | nil => exact hs
    | cons q rows ih =>
      apply ih
      intro id r hr
      rcases reopenCard_cases env _ s q with hsame | ⟨name, -, -, -, -, -, herase⟩
      · rw [hsame] at hr
        exact hs id r hr
      · rw [herase, Dict.get_erase] at hr
        split at hr
        · cases hr
        · exact hs id r hr
  apply hreopens _ _ _ id r h
  apply hdrops
  intro id r hr
  cases hr

end Holds

end Late

section Steps
variable {env : LedgerEnv} {aliases : CardAliases} {s : Drops} {r : DropRow} {id : String} {n : Nat}

theorem dropCard_none (h : meantCard env aliases r = none) : dropCard env aliases s r = s := by
  unfold dropCard
  rw [h]

theorem dropCard_some (h : meantCard env aliases r = some id) : dropCard env aliases s r =
    { dropped := s.dropped.set id r
      engine := if dropAuthor r = "operator" then s.engine else s.engine ++ [(id, r.eventIndex)] } := by
  unfold dropCard
  rw [h]

theorem Drops.Held.dropCard (h : s.Held id) (hlate : ∀ e ∈ s.engine, e.2 < r.eventIndex) :
    (LoopLab.dropCard env aliases s r).Held id := by
  obtain ⟨i, prior, hi, hprior, hle⟩ := h
  cases hmeant : meantCard env aliases r with
  | none =>
    rw [dropCard_none hmeant]
    exact ⟨i, prior, hi, hprior, hle⟩
  | some name =>
    rw [dropCard_some hmeant]
    have hkept : (id, i) ∈ (if dropAuthor r = "operator" then s.engine
        else s.engine ++ [(name, r.eventIndex)]) := by
      split
      · exact hi
      · exact List.mem_append_left _ hi
    by_cases hid : id = name
    · refine ⟨i, r, hkept, ?_, Nat.le_of_lt (hlate _ hi)⟩
      rw [Dict.get_set, if_pos hid]
    · refine ⟨i, prior, hkept, ?_, hle⟩
      rw [Dict.get_set, if_neg hid]
      exact hprior

theorem Drops.Held.reopenCard (h : s.Held id) : (LoopLab.reopenCard env aliases s r).Held id := by
  obtain ⟨i, prior, hi, hprior, hle⟩ := h
  rcases reopenCard_cases env aliases s r with hsame | ⟨name, undone, hundone, hlt, -, hengine, herase⟩
  · rw [hsame]
    exact ⟨i, prior, hi, hprior, hle⟩
  · rw [herase]
    refine ⟨i, prior, hi, ?_, hle⟩
    rw [Dict.get_erase, if_neg, hprior]
    rintro rfl
    rw [hprior] at hundone
    cases hundone
    have := hengine _ hi rfl
    dsimp only at this
    omega

theorem Drops.held_engine (hmeant : meantCard env aliases r = some id)
    (hauthor : dropAuthor r ≠ "operator") : (LoopLab.dropCard env aliases s r).Held id := by
  rw [dropCard_some hmeant, if_neg hauthor]
  refine ⟨r.eventIndex, r, ?_, ?_, Nat.le_refl _⟩
  · exact List.mem_append_right _ (List.mem_singleton_self _)
  · rw [Dict.get_set, if_pos rfl]

theorem Drops.Below.dropCard (h : s.Below n) (hr : r.eventIndex < n) :
    (LoopLab.dropCard env aliases s r).Below n := by
  cases hmeant : meantCard env aliases r with
  | none =>
    rw [dropCard_none hmeant]
    exact h
  | some name =>
    rw [dropCard_some hmeant]
    constructor
    · intro e he
      dsimp only at he
      split at he
      · exact h.engine e he
      · rcases List.mem_append.mp he with he | he
        · exact h.engine e he
        · rw [List.mem_singleton.mp he]
          exact hr
    · intro id row hrow
      rw [Dict.get_set] at hrow
      split at hrow
      · cases hrow
        exact hr
      · exact h.dropped id row hrow

theorem Drops.Below.reopenCard (h : s.Below n) : (LoopLab.reopenCard env aliases s r).Below n := by
  rcases reopenCard_cases env aliases s r with hsame | ⟨name, -, -, -, -, -, herase⟩
  · rwa [hsame]
  · rw [herase]
    refine ⟨h.engine, ?_⟩
    intro id row hrow
    rw [Dict.get_erase] at hrow
    split at hrow
    · cases hrow
    · exact h.dropped id row hrow

end Steps

section Runs
variable {env : LedgerEnv} {aliases : CardAliases} {id : String} {n : Nat}

theorem below_standingDrops {board : CardBoard} (h : ∀ r ∈ board.cardsDropped, r.eventIndex < n) :
    (standingDrops env aliases board).Below n := by
  have hdrops (rows : List DropRow) (s : Drops) (hs : s.Below n) (h : ∀ r ∈ rows, r.eventIndex < n) :
      (rows.foldl (dropCard env aliases) s).Below n := by
    induction rows generalizing s with
    | nil => exact hs
    | cons r rows ih =>
      apply ih _ (hs.dropCard (h r List.mem_cons_self))
      intro q hq
      exact h q (List.mem_cons_of_mem r hq)
  have hreopens (rows : List DropRow) (s : Drops) (hs : s.Below n) :
      (rows.foldl (reopenCard env aliases) s).Below n := by
    induction rows generalizing s with
    | nil => exact hs
    | cons r rows ih => exact ih _ hs.reopenCard
  apply hreopens
  apply hdrops _ _ _ h
  constructor
  · intro e he
    cases he
  · intro id r hr
    cases hr

theorem Drops.Held.drops {rows : List DropRow} {s : Drops} (h : s.Held id)
    (hsorted : rows.Pairwise fun a b => a.eventIndex < b.eventIndex)
    (hbelow : ∀ r ∈ rows, s.Below r.eventIndex) : (rows.foldl (LoopLab.dropCard env aliases) s).Held id := by
  induction rows generalizing s with
  | nil => exact h
  | cons r rows ih =>
    obtain ⟨hfirst, hsorted⟩ := List.pairwise_cons.mp hsorted
    apply ih (h.dropCard (hbelow r List.mem_cons_self).engine) hsorted
    intro q hq
    exact (hbelow q (List.mem_cons_of_mem r hq)).dropCard (hfirst q hq)

theorem held_standingDrops {board : CardBoard}
    (hsorted : board.cardsDropped.Pairwise fun a b => a.eventIndex < b.eventIndex) {r : DropRow}
    (hr : r ∈ board.cardsDropped) (hmeant : meantCard env aliases r = some id)
    (hauthor : dropAuthor r ≠ "operator") : (standingDrops env aliases board).Held id := by
  have hdrops (rows : List DropRow) (s : Drops)
      (hsorted : rows.Pairwise fun a b => a.eventIndex < b.eventIndex)
      (hbelow : ∀ r ∈ rows, s.Below r.eventIndex) (hr : r ∈ rows) :
      (rows.foldl (dropCard env aliases) s).Held id := by
    induction rows generalizing s with
    | nil => cases hr
    | cons q rows ih =>
      obtain ⟨hfirst, hrest⟩ := List.pairwise_cons.mp hsorted
      have hbelow' (p : DropRow) (hp : p ∈ rows) : (dropCard env aliases s q).Below p.eventIndex :=
        (hbelow p (List.mem_cons_of_mem q hp)).dropCard (hfirst p hp)
      rcases List.mem_cons.mp hr with rfl | hr
      · exact (Drops.held_engine hmeant hauthor).drops hrest hbelow'
      · exact ih _ hrest hbelow' hr
  have hreopens (rows : List DropRow) (s : Drops) (hs : s.Held id) :
      (rows.foldl (reopenCard env aliases) s).Held id := by
    induction rows generalizing s with
    | nil => exact hs
    | cons q rows ih => exact ih _ hs.reopenCard
  apply hreopens
  apply hdrops _ _ hsorted _ hr
  intro q _
  constructor
  · intro e he
    cases he
  · intro id r hr
    cases hr

theorem reopen_last {s : Drops} {r prior : DropRow} (h : s.Below r.eventIndex)
    (hmeant : meantCard env aliases r = some id) (hprior : s.dropped.get id = some prior) :
    (reopenCard env aliases s r).dropped.get id = none ↔ s.reopenable id = true := by
  have hbefore : (s.engine.any fun e => e.1 = id && e.2 < r.eventIndex) = s.engineDropped id := by
    unfold Drops.engineDropped
    apply Bool.eq_iff_iff.mpr
    rw [List.any_eq_true, List.any_eq_true]
    constructor
    · rintro ⟨e, he, hid⟩
      exact ⟨e, he, (Bool.and_eq_true_iff.mp hid).1⟩
    · rintro ⟨e, he, hid⟩
      exact ⟨e, he, Bool.and_eq_true_iff.mpr ⟨hid, decide_eq_true (h.engine e he)⟩⟩
  have hflag : s.reopenable id = (dropAuthor prior = "operator" && !s.engineDropped id) := by
    unfold Drops.reopenable Drops.mark
    rw [hprior]
    rfl
  have hlt := h.dropped id prior hprior
  have hrow : (meantCard env aliases r).bind (fun id => (s.dropped.get id).map (id, ·)) =
      some (id, prior) := by
    rw [hmeant, Option.bind_some, hprior]
    rfl
  rw [hflag]
  unfold reopenCard
  rw [hrow]
  dsimp only
  rw [hbefore, decide_eq_true hlt, Bool.true_and]
  split
  · rename_i hundo
    rw [Dict.get_erase, if_pos rfl]
    simp only [true_iff]
    exact hundo
  · rename_i hundo
    rw [hprior]
    simp only [reduceCtorEq, false_iff]
    exact hundo

end Runs

end LoopLab
