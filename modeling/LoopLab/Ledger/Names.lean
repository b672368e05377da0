import LoopLab.Ledger.Evidence

/-!
# The names of cards

No card goes under the empty name, and a name that a card took in is not the name of another: the
chain of an alias ends at the card that lists it, that of a card's name at the card itself.
-/

set_option autoImplicit false

namespace LoopLab
open Lib

/-! ## Alias chains -/

/-- Following a chain ends, at the point the walk itself ends at, and once followed it is done. -/
structure Resolves (next : String → Option String) (resolve : String → String) : Prop where
  ends : ∀ x, Lib.Follows next [] x (resolve x)
  idempotent : ∀ x, resolve (resolve x) = resolve x

theorem canon_resolves (a : CardAliases) : Resolves a.aliasOf.get a.canon where
  ends := follows_chase a.aliasOf
  idempotent := chase_idem a.aliasOf

theorem stepAt_keys (a : CardAliases) (index : Nat) (x y : String) (h : a.stepAt index x = some y) :
    x ∈ a.mergeEdges.rows.map Prod.fst ++ a.identityAlias.rows.map Prod.fst := by
  rw [List.mem_append, Dict.mem_keys, Dict.mem_keys]
  unfold CardAliases.stepAt at h
  dsimp only at h
  cases hedges : a.mergeEdges.get x with
  | some edges => exact .inl (Option.some_ne_none edges)
  | none =>
    rw [hedges] at h
    have hbridge : a.identityAlias.get x = some y := h
    rw [hbridge]
    exact .inr (Option.some_ne_none y)

theorem canonAt_resolves (a : CardAliases) (index : Nat) :
    Resolves (a.stepAt index) (a.canonAt · index) := by
  have hlen : (a.mergeEdges.rows.map Prod.fst ++ a.identityAlias.rows.map Prod.fst).length =
      a.mergeEdges.rows.length + a.identityAlias.rows.length := by
    rw [List.length_append, List.length_map, List.length_map]
  constructor
  · intro x
    apply follows_chaseLoop (stepAt_keys a index) (Trail.nil x)
    rw [hlen]
    simp
  · intro x
    exact chaseLoop_idem (stepAt_keys a index) (Nat.le_of_eq hlen) x

section Names
variable {env : LedgerEnv}

theorem cardId_ne {s x : String} (h : cardId env s = some x) : x ≠ "" := by
  unfold cardId at h
  dsimp only at h
  split at h
  · rename_i hx
    cases h
    rintro hempty
    rw [hempty] at hx
    simp at hx
  · cases h

/-! ## Owners -/

section Identified
variable {P : String → Prop} (hP : ∀ s x, cardId env s = some x → P x)

def IdentityTables.AllNamed (P : String → Prop) (t : IdentityTables) : Prop :=
  ∀ r ∈ t.nativeIds.rows, ∀ x ∈ r.2, P x

theorem mem_noteOnce {d : Dict String (List String)} {k v : String} {r : String × List String}
    (h : r ∈ (noteOnce d k v).rows) : r ∈ d.rows ∨ ∀ x ∈ r.2, x = v ∨ ∃ s ∈ d.rows, x ∈ s.2 := by
  unfold noteOnce Dict.set at h
  rcases Table.mem_put.mp h with rfl | ⟨h, -⟩
  · right
    intro x hx
    have hold (hx : x ∈ (Dict.get d k).getD []) : ∃ s ∈ d.rows, x ∈ s.2 := by
      unfold Dict.get at hx
      cases hget : Table.get d k with
      | none =>
        rw [hget] at hx
        cases hx
      | some s =>
        rw [hget] at hx
        exact ⟨s, Table.mem_of_get hget, hx⟩
    dsimp only at hx
    split at hx
    · exact .inr (hold hx)
    · rcases List.mem_append.mp hx with hx | hx
      · exact .inr (hold hx)
      · exact .inl (List.mem_singleton.mp hx)
  · exact .inl h

include hP in
theorem AllNamed.register {t : IdentityTables} (h : t.AllNamed P) (statement : String)
    (raw : Option String) : (registerCardIdentity env t statement raw).AllNamed P := by
  unfold registerCardIdentity
  split
  · exact h
  · dsimp only
    cases hid : (raw.bind (cardId env)).filter (· ≠ hypothesisId env statement) with
    | none => exact h
    | some cid =>
      have hcid : P cid := by
        obtain ⟨hbind, -⟩ := Option.filter_eq_some_iff.mp hid
        obtain ⟨s, -, hs⟩ := Option.bind_eq_some_iff.mp hbind
        exact hP s cid hs
      intro r hr x hx
      rcases mem_noteOnce hr with hr | hr
      · exact h r hr x hx
      · rcases hr x hx with rfl | ⟨s, hs, hx⟩
        · exact hcid
        · exact h s hs x hx

include hP in
theorem allNamed_tables (st : RunState) (board : CardBoard) :
    (identityTables env st board).AllNamed P := by
  have hrun {α : Type} (f : α → String) (g : α → Option String) (rows : List α) (t : IdentityTables)
      (h : t.AllNamed P) :
      (rows.foldl (fun t r => registerCardIdentity env t (f r) (g r)) t).AllNamed P := by
    induction rows generalizing t with
    | nil => exact h
    | cons r rows ih => exact ih _ (AllNamed.register hP h (f r) (g r))
  unfold identityTables
  dsimp only
  apply hrun Node.stmt fun n => n.idea.cardId
  apply hrun AddedRow.stmt fun _ => none
  apply hrun AddedRow.stmt AddedRow.id
  intro r hr
  cases hr

theorem AllNamed.owner {t : IdentityTables} (h : t.AllNamed P) {r : String × List String}
    (hr : r ∈ t.nativeIds.rows.filter (!t.ambiguous ·)) : P (r.2.headD "") := by
  obtain ⟨hmem, hclear⟩ := List.mem_filter.mp hr
  have hlen : r.2.length = 1 := by
    unfold IdentityTables.ambiguous at hclear
    by_contra hne
    simp [hne] at hclear
  obtain ⟨x, hx⟩ := List.length_eq_one_iff.mp hlen
  rw [hx]
  apply h r hmem
  rw [hx]
  exact List.mem_singleton_self x

theorem get_foldl_set_holds {α : Type} (k : α → String) (v : α → String) (rows : List α)
    (hv : ∀ r ∈ rows, P (v r)) (d : Dict String String) (hd : ∀ x y, d.get x = some y → P y)
    (x y : String) (h : (rows.foldl (fun d r => d.set (k r) (v r)) d).get x = some y) : P y := by
  induction rows generalizing d with
  | nil => exact hd x y h
  | cons r rows ih =>
    apply ih (fun s hs => hv s (List.mem_cons_of_mem _ hs)) (d.set (k r) (v r)) _ h
    intro j z hz
    rw [Dict.get_set] at hz
    split at hz
    · cases hz
      exact hv r List.mem_cons_self
    · exact hd j z hz

include hP in
theorem seedOwner_holds (st : RunState) (board : CardBoard) (x y : String)
    (h : (cardIdentityMap env st board).seedOwner.get x = some y) : P y := by
  apply get_foldl_set_holds _ _ _ _ Table.empty _ x y h
  · intro r hr
    exact AllNamed.owner (allNamed_tables hP st board) hr
  · intro j z hz
    cases hz

/-! ## Aliases -/

section Aliases
variable {identity : CardIdentity} (howner : ∀ x y, identity.seedOwner.get x = some y → P y)
include hP howner

theorem mergeName_holds {native : Bool} {raw x : String}
    (h : mergeName env identity native raw = some x) : P x := by
  unfold mergeName at h
  obtain ⟨y, hy, rfl⟩ := Option.map_eq_some_iff.mp h
  have hy := hP raw y (Option.filter_eq_some_iff.mp hy).1
  cases hget : identity.seedOwner.get y with
  | none => exact hy
  | some z => exact howner y z hget

theorem mergePairs_holds {row : Bool × MergeRow} {e : String × String}
    (h : e ∈ mergePairs env identity row) : P e.2 := by
  unfold mergePairs at h
  cases hname : mergeName env identity row.1 row.2.canonical with
  | none =>
    rw [hname] at h
    cases h
  | some canonical =>
    rw [hname] at h
    obtain ⟨x, -, rfl⟩ := List.mem_map.mp h
    exact mergeName_holds hP howner hname

omit hP in
theorem identityAlias_holds (x y : String) (h : (identityBridges identity).get x = some y) : P y := by
  apply get_foldl_set_holds Prod.fst Prod.snd _ _ Table.empty _ x y h
  · intro r hr
    apply howner r.1 r.2
    obtain ⟨hr, -⟩ := List.mem_filter.mp hr
    unfold Dict.get
    rw [Table.get_of_mem hr]
    rfl
  · intro j z hz
    cases hz

theorem aliasOf_holds (board : CardBoard) (x y : String)
    (h : (cardMergeAliases env identity board).aliasOf.get x = some y) : P y := by
  have hoffers (es : List (String × String)) (hes : ∀ e ∈ es, P e.2) (d : Dict String String)
      (hd : ∀ x y, d.get x = some y → P y) (x y : String)
      (h : (Dict.offers Py.minStr d es).get x = some y) : P y := by
    induction es generalizing d with
    | nil => exact hd x y h
    | cons e es ih =>
      apply ih (fun f hf => hes f (List.mem_cons_of_mem _ hf)) (Dict.offer Py.minStr d e) _ h
      intro j z hz
      rw [Dict.get_offer] at hz
      split at hz
      · cases hz
        have he := hes e List.mem_cons_self
        cases hget : d.get e.1 with
        | none => exact he
        | some w =>
          have hw := hd e.1 w hget
          unfold settle Py.minStr LinearBool.least
          dsimp only
          split
          · exact hw
          · exact he
      · exact hd j z hz
  have hget := Dict.get_update (identityBridges identity) (Dict.offers Py.minStr Table.empty
    ((nativeFirst board.cardsMerged board.hypothesesMerged).flatMap (mergePairs env identity))) x
  have heq := hget.symm.trans h
  rcases Option.or_eq_some_iff.mp heq with hmerged | ⟨-, hbridge⟩
  · apply hoffers _ _ Table.empty _ x y hmerged
    · intro e he
      obtain ⟨row, -, he⟩ := List.mem_flatMap.mp he
      exact mergePairs_holds hP howner he
    · intro j z hz
      cases hz
  · exact identityAlias_holds howner x y hbridge

theorem canon_holds (board : CardBoard) {x : String} (hx : P x) :
    P ((cardMergeAliases env identity board).canon x) :=
  Lib.Follows.holds (aliasOf_holds hP howner board)
    (follows_chase (cardMergeAliases env identity board).aliasOf x) hx

end Aliases

end Identified

/-! ## Cards -/

def Card.Fresh (c : Card) : Prop := c.id ≠ "" ∧ c.aliases = []

def Cards.AllFresh (cards : Cards) : Prop := ∀ c ∈ cards.rows, c.Fresh

theorem allFresh_put {cards : Cards} {c : Card} (h : cards.AllFresh) (hc : c.Fresh) :
    Cards.AllFresh (Table.put cards c) := by
  intro d hd
  rcases Table.mem_put.mp hd with rfl | ⟨hd, -⟩
  · exact hc
  · exact h d hd

theorem allFresh_seedRow {identity : CardIdentity} {L : CardLedger} (h : L.cards.AllFresh)
    (row : Bool × AddedRow) : (seedRow env identity L row).cards.AllFresh := by
  rcases seedRow_cases L row with
    ⟨hcards, -⟩ | ⟨name, hne, -, hcards, -⟩
  · rwa [hcards]
  · rw [hcards]
    exact allFresh_put h ⟨hne, rfl⟩

theorem linkName_ne {identity : CardIdentity} {n : Node} {name : String}
    (h : linkName env identity n = some name) : name ≠ "" := by
  unfold linkName at h
  dsimp only at h
  split at h
  · cases h
  · split at h
    · cases h
    · exact of_decide_eq_true (Option.filter_eq_some_iff.mp h).2

theorem allFresh_linkNode {identity : CardIdentity} {st : RunState} {L : CardLedger}
    (h : L.cards.AllFresh) (n : Node) : (linkNode env identity st L n).cards.AllFresh := by
  unfold linkNode
  cases hname : linkName env identity n with
  | none => exact h
  | some name =>
    apply allFresh_put h
    show (linkedCard env st L name n).1.id ≠ "" ∧ (linkedCard env st L name n).1.aliases = []
    unfold linkedCard
    cases hget : L.cards.get name with
    | none => exact ⟨linkName_ne hname, rfl⟩
    | some c =>
      obtain ⟨hid, haliases⟩ := h c (Table.mem_of_get hget)
      dsimp only
      split
      · exact ⟨hid, haliases⟩
      · exact ⟨hid, haliases⟩

theorem allFresh_unmerged (env : LedgerEnv) (identity : CardIdentity) (st : RunState)
    (board : CardBoard) : (linkedLedger env identity st board).cards.AllFresh := by
  have hseed (rows : List (Bool × AddedRow)) (L : CardLedger) (h : L.cards.AllFresh) :
      (rows.foldl (seedRow env identity) L).cards.AllFresh := by
    induction rows generalizing L with
    | nil => exact h
    | cons row rows ih => exact ih _ (allFresh_seedRow h row)
  have hlink (nodes : List Node) (L : CardLedger) (h : L.cards.AllFresh) :
      (nodes.foldl (linkNode env identity st) L).cards.AllFresh := by
    induction nodes generalizing L with
    | nil => exact h
    | cons n nodes ih => exact ih _ (allFresh_linkNode h n)
  apply hlink
  apply hseed
  intro c hc
  cases hc

structure Card.Settled (canon : String → String) (c : Card) : Prop where
  named : c.id ≠ ""
  own : canon c.id = c.id
  aliases : ∀ x ∈ c.aliases, x ≠ c.id ∧ canon x = c.id

theorem settled_merged {st : RunState} {a : CardAliases} {L : CardLedger} (hfresh : L.cards.AllFresh)
    (hne : ∀ x, x ≠ "" → a.canon x ≠ "") : ∀ c ∈ (foldMergedCards st a L).rows, c.Settled a.canon := by
  intro c hc
  cases h : a.aliasOf.rows.isEmpty with
  | true =>
    unfold foldMergedCards at hc
    rw [h] at hc
    obtain ⟨hid, haliases⟩ := hfresh c hc
    refine ⟨hid, ?_, ?_⟩
    · apply chase_of_none
      unfold Dict.get Table.get
      rw [List.isEmpty_iff.mp h]
      rfl
    · intro x hx
      rw [haliases] at hx
      cases hx
  | false =>
    obtain ⟨ht, hgroup⟩ := (mem_foldMergedCards h).mp hc
    obtain ⟨d, hd, hcanon⟩ := mem_mergeTargets.mp ht
    refine ⟨?_, ?_, ?_⟩
    · rw [← hcanon]
      exact hne d.id (hfresh d hd).1
    · rw [← hcanon]
      exact chase_idem a.aliasOf d.id
    · intro x hx
      rcases (mergeGroup_aliases hgroup x).mp hx with hx | hx
      · obtain ⟨hx, hxne⟩ := List.mem_filter.mp hx
        obtain ⟨e, he, hx⟩ := List.mem_flatMap.mp hx
        obtain ⟨he, hecanon⟩ := mem_mergeMembers.mp he
        rw [(hfresh e he).2, List.mem_singleton] at hx
        rw [hx]
        rw [hx] at hxne
        exact ⟨of_decide_eq_true hxne, hecanon⟩
      · obtain ⟨-, hx⟩ := List.mem_filter.mp hx
        simp only [Bool.and_eq_true, decide_eq_true_eq] at hx
        exact ⟨hx.1.2, hx.1.1.1⟩

end Names

end LoopLab
