import LoopLab.Engine.Producers

/-!
# No two producers on one pair of roles

As long as the proposal lane finds its pair free of an older lease, and the researchers are not wrapped
anew under a producer at work, the producers at work share no role, keep off the primary pair and
release what they leased.
-/

set_option autoImplicit false

namespace LoopLab.Engine
open Lib

theorem RolesApart.symm {p q : RolePair} (h : RolesApart p q) : RolesApart q p := ⟨h.1.symm, h.2.symm⟩

theorem RolesApart.ne {p q : RolePair} (h : RolesApart p q) : p ≠ q := by
  rintro rfl
  exact h.1 rfl

namespace Producers

/-- How many leases a width allows: one for each build, and one for the proposal lane where more than
one build may run. -/
def allowance (width : Nat) : Nat := if 1 < width then width + 1 else width

/-- The leases granted at a width and held still. -/
def grantedAt (s : Producers) (width : Nat) : List Producer :=
  s.live.filter fun p => Dict.get s.pairLeases p.holder = some p.index ∧ p.width = width

/-- What holds of the producers at work. -/
structure Kept (s : Producers) : Prop where
  apart : s.live.Pairwise fun p q => RolesApart p.pair q.pair
  isolated : ∀ p ∈ s.live, p.pair.1 ≠ s.researcher ∧ p.pair.2 ≠ s.developer
  released : ∀ holder index, Dict.get s.pairLeases holder = some index →
    ∃ p, s.live.filter (·.holder = holder) = [p] ∧ p.index = index ∧ s.pairAt index = some p.pair
  granted : ∀ width, (s.grantedAt width).length ≤ allowance width

/-- The factory's pairs are new: they share no role with one another, with the pool or with a pair in
use. -/
structure Fresh (s : Producers) (offers : Offers) : Prop where
  among : (offers.filterMap id).Pairwise RolesApart
  pool : ∀ p ∈ offers.filterMap id, ∀ q ∈ s.rolePool, RolesApart p q
  live : ∀ p ∈ offers.filterMap id, ∀ l ∈ s.live, RolesApart l.pair p

/-- What the engine is promised of the objects it is handed. -/
def Promised (s : Producers) : ProducerOp → Prop
  | .batch _ offers | .capacity offers | .start _ offers | .startFails _ offers => s.Fresh offers
  | .swapDeveloper developer => ∀ p ∈ s.live, p.pair.2 ≠ developer
  | .wrapResearchers researcher pooled =>
    (∀ p ∈ s.live, p.pair.1 ≠ researcher) ∧ ∀ i j, pooled i = pooled j → i = j
  | .rewidth _ | .finish _ => True

/-- The pair of the proposal lane is not leased to a build of a larger width. -/
def RawClear (s : Producers) (holder : Holder) : Prop :=
  holder = .raw → 1 < speculativeProducerWidth s.width → speculativeProducerWidth s.width ∉ s.held

/-- The proposal lane starts on a free pair only, and no producer at work shares a role with a pool that
is wrapped anew. -/
def Clear (s : Producers) : ProducerOp → Prop
  | .start holder _ => s.RawClear holder
  | .wrapResearchers _ pooled =>
    s.rolePool = [] ∨ ∀ p ∈ s.live, ∀ q ∈ rewrapped s.rolePool pooled, RolesApart p.pair q
  | _ => True

/-- A run of the engine from its start, each of whose steps is met by `ok`. -/
inductive Run (ok : Producers → ProducerOp → Prop) : Producers → Prop where
  | init (researcher developer : Role) (width : BuildWidth) : Run ok { researcher, developer, width }
  | step {s s' : Producers} (op : ProducerOp) (run : Run ok s) (promised : s.Promised op) (meets : ok s op)
      (next : s.step op = some s') : Run ok s'

/-! ## The pool -/

theorem growPool_spec (length : Nat) (offers : Offers) (pool : List RolePair) :
    ∃ added, (growPool length offers pool).1 = pool ++ added ∧
      (added ++ (growPool length offers pool).2.filterMap id).Sublist (offers.filterMap id) := by
  induction offers generalizing pool with
  | nil => exact ⟨[], (List.append_nil pool).symm, .refl _⟩
  | cons offer offers ih =>
    cases offer with
    | none =>
      unfold growPool
      split
      · exact ⟨[], (List.append_nil pool).symm, .refl _⟩
      · exact ⟨[], (List.append_nil pool).symm, .refl _⟩
    | some pair =>
      unfold growPool
      split
      · exact ⟨[], (List.append_nil pool).symm, .refl _⟩
      · obtain ⟨added, hpool, hsub⟩ := ih (pool ++ [pair])
        refine ⟨pair :: added, ?_, ?_⟩
        · rw [hpool, List.append_assoc]
          rfl
        · exact hsub.cons_cons pair

structure Grown (s s' : Producers) : Prop where
  pool : ∃ added, s'.rolePool = s.rolePool ++ added
  pairAt : ∀ i p, s.pairAt i = some p → s'.pairAt i = some p
  researcher : s'.researcher = s.researcher
  developer : s'.developer = s.developer
  leases : s'.pairLeases = s.pairLeases
  live : s'.live = s.live
  width : s'.width = s.width

structure Inv (s : Producers) : Prop where
  holders : (s.live.map (·.holder)).Nodup
  pool : s.rolePool.Pairwise RolesApart
  first : ∀ p, s.rolePair = some p → s.rolePool.head? = some p ∧ s.isolated p = true
  pairs : s.rolePairs <+: s.rolePool.tail.filter s.isolated
  unset : s.rolePair = none → s.rolePairs = []
  leased : ∀ holder i, Dict.get s.pairLeases holder = some i →
    ∃ p ∈ s.live, p.holder = holder ∧ p.index = i ∧ s.pairAt i = some p.pair
  indices : ∀ h h' i, Dict.get s.pairLeases h = some i → Dict.get s.pairLeases h' = some i → h = h'
  retired : ∀ p ∈ s.live, Dict.get s.pairLeases p.holder = none →
    ∀ q ∈ s.rolePool, RolesApart p.pair q
  apart : s.live.Pairwise fun p q => RolesApart p.pair q.pair
  primary : ∀ p ∈ s.live, s.isolated p.pair = true
  allowed : ∀ p ∈ s.live, p.index < allowance p.width

variable {s s' : Producers}

theorem Inv.sublist (h : Inv s) : (s.rolePair.toList ++ s.rolePairs).Sublist s.rolePool := by
  cases hfirst : s.rolePair with
  | none =>
    rw [h.unset hfirst]
    exact List.nil_sublist _
  | some p =>
    obtain ⟨hhead, -⟩ := h.first p hfirst
    obtain ⟨rest, hpool⟩ := List.head?_eq_some_iff.mp hhead
    have hpairs := h.pairs.sublist.trans List.filter_sublist
    rw [hpool, List.tail_cons] at hpairs
    rw [hpool]
    exact hpairs.cons_cons p

theorem pairAt_eq (hset : s.rolePair ≠ none) (i : Nat) :
    s.pairAt i = (s.rolePair.toList ++ s.rolePairs)[i]? := by
  obtain ⟨p, hp⟩ := Option.ne_none_iff_exists'.mp hset
  cases i with
  | zero => rw [pairAt, hp]; rfl
  | succ i => rw [pairAt, hp]; rfl

theorem Inv.rolePair_of_pairAt (h : Inv s) {i : Nat} {p : RolePair} (hp : s.pairAt i = some p) :
    s.rolePair ≠ none := by
  intro hnone
  cases i with
  | zero =>
    rw [pairAt, hnone] at hp
    cases hp
  | succ i =>
    rw [pairAt, h.unset hnone] at hp
    cases hp

theorem Inv.pairAt_mem (h : Inv s) {i : Nat} {p : RolePair} (hp : s.pairAt i = some p) :
    p ∈ s.rolePool ∧ s.isolated p = true := by
  cases i with
  | zero =>
    obtain ⟨hhead, hiso⟩ := h.first p hp
    exact ⟨List.mem_of_head? hhead, hiso⟩
  | succ i =>
    obtain ⟨hmem, hiso⟩ := List.mem_filter.mp (h.pairs.subset (List.mem_of_getElem? hp))
    exact ⟨List.mem_of_mem_tail hmem, hiso⟩

theorem Inv.pairAt_apart (h : Inv s) {i j : Nat} {p q : RolePair} (hp : s.pairAt i = some p)
    (hq : s.pairAt j = some q) (hne : i ≠ j) : RolesApart p q := by
  have hset := h.rolePair_of_pairAt hp
  rw [pairAt_eq hset] at hp hq
  obtain ⟨hi, hp⟩ := List.getElem?_eq_some_iff.mp hp
  obtain ⟨hj, hq⟩ := List.getElem?_eq_some_iff.mp hq
  have hall := h.pool.sublist h.sublist
  rw [List.pairwise_iff_getElem] at hall
  rcases Nat.lt_or_gt_of_ne hne with hlt | hgt
  · rw [← hp, ← hq]
    exact hall i j hi hj hlt
  · rw [← hp, ← hq]
    exact (hall j i hj hi hgt).symm

theorem Inv.grow (h : Inv s) {added : List RolePair}
    (hpool : (s.rolePool ++ added).Pairwise RolesApart)
    (hlive : ∀ p ∈ added, ∀ l ∈ s.live, RolesApart l.pair p) :
    Inv { s with rolePool := s.rolePool ++ added } := by
  refine { h with pool := hpool, first := ?_, pairs := ?_, retired := ?_ }
  · intro p hp
    obtain ⟨hhead, hiso⟩ := h.first p hp
    obtain ⟨rest, hrest⟩ := List.head?_eq_some_iff.mp hhead
    refine ⟨?_, hiso⟩
    dsimp only
    rw [hrest, List.cons_append, List.head?_cons]
  · apply h.pairs.trans
    apply List.IsPrefix.filter
    dsimp only
    cases s.rolePool with
    | nil => exact List.nil_prefix
    | cons p pool =>
      rw [List.cons_append, List.tail_cons, List.tail_cons]
      exact List.prefix_append pool added
  · intro p hp hnone q hq
    rcases List.mem_append.mp hq with hq | hq
    · exact h.retired p hp hnone q hq
    · exact hlive q hq p hp

theorem Grown.trans {t u v : Producers} (h : Grown t u) (h' : Grown u v) : Grown t v := by
  obtain ⟨added, hpool⟩ := h.pool
  obtain ⟨added', hpool'⟩ := h'.pool
  refine ⟨⟨added ++ added', by rw [hpool', hpool, List.append_assoc]⟩, ?_, h'.researcher.trans h.researcher,
    h'.developer.trans h.developer, h'.leases.trans h.leases, h'.live.trans h.live,
    h'.width.trans h.width⟩
  intro i p hp
  exact h'.pairAt i p (h.pairAt i p hp)

theorem buildRolePairs_spec (h : Inv s) {offers : Offers} (hfresh : s.Fresh offers) (n : Nat) :
    (s.buildRolePairs n offers).1 = (s.buildRolePairs n offers).2.1.rolePool.take (n - 1) ∧
      Inv (s.buildRolePairs n offers).2.1 ∧ Grown s (s.buildRolePairs n offers).2.1 ∧
      (s.buildRolePairs n offers).2.1.Fresh (s.buildRolePairs n offers).2.2 ∧
      (s.buildRolePairs n offers).2.1.rolePair = s.rolePair ∧
      (s.buildRolePairs n offers).2.1.rolePairs = s.rolePairs := by
  obtain ⟨added, hpool, hsub⟩ := growPool_spec (n - 1) offers s.rolePool
  unfold buildRolePairs
  dsimp only
  generalize growPool (n - 1) offers s.rolePool = grown at hpool hsub
  obtain ⟨pool, rest⟩ := grown
  dsimp only at hpool hsub ⊢
  subst hpool
  have hall := hfresh.among.sublist hsub
  obtain ⟨hadded, hrest, hcross⟩ := List.pairwise_append.mp hall
  have hmem (p : RolePair) (hp : p ∈ added ∨ p ∈ rest.filterMap id) : p ∈ offers.filterMap id :=
    hsub.subset (List.mem_append.mpr hp)
  refine ⟨rfl, ?_, ?_, ?_, rfl, rfl⟩
  · apply h.grow
    · rw [List.pairwise_append]
      refine ⟨h.pool, hadded, ?_⟩
      intro p hp q hq
      exact (hfresh.pool q (hmem q (.inl hq)) p hp).symm
    · intro p hp l hl
      exact hfresh.live p (hmem p (.inl hp)) l hl
  · exact ⟨⟨added, rfl⟩, fun _ _ hp => hp, rfl, rfl, rfl, rfl, rfl⟩
  · refine ⟨hrest, ?_, ?_⟩
    · intro p hp q hq
      rcases List.mem_append.mp hq with hq | hq
      · exact hfresh.pool p (hmem p (.inr hp)) q hq
      · exact (hcross q hq p hp).symm
    · intro p hp l hl
      exact hfresh.live p (hmem p (.inr hp)) l hl

theorem Grown.refl (s : Producers) : Grown s s :=
  ⟨⟨[], (List.append_nil _).symm⟩, fun _ _ hp => hp, rfl, rfl, rfl, rfl, rfl⟩

theorem producerRolePair_spec (h : Inv s) {offers : Offers} (hfresh : s.Fresh offers) :
    Inv (s.producerRolePair offers).2.1 ∧ Grown s (s.producerRolePair offers).2.1 ∧
      (s.producerRolePair offers).2.1.Fresh (s.producerRolePair offers).2.2 ∧
      ∀ p, (s.producerRolePair offers).1 = some p → (s.producerRolePair offers).2.1.rolePair = some p := by
  unfold producerRolePair
  cases hfirst : s.rolePair with
  | some pair => exact ⟨h, Grown.refl s, hfresh, fun _ hp => hfirst.trans hp⟩
  | none =>
    obtain ⟨hpairs, hinv, hgrown, hfresh', hrole, hroles⟩ := buildRolePairs_spec h hfresh 2
    dsimp only
    generalize s.buildRolePairs 2 offers = built at hpairs hinv hgrown hfresh' hrole hroles ⊢
    obtain ⟨pairs, t, rest⟩ := built
    dsimp only at hpairs hinv hgrown hfresh' hrole hroles ⊢
    have hnone : t.rolePairs = [] := hroles.trans (h.unset hfirst)
    cases hhead : pairs.head? with
    | none => exact ⟨hinv, hgrown, hfresh', fun _ hp => nomatch hp⟩
    | some pair =>
      dsimp only
      split
      · rename_i hiso
        have hpool : t.rolePool.head? = some pair := by
          rw [hpairs] at hhead
          cases hp : t.rolePool with
          | nil =>
            rw [hp] at hhead
            cases hhead
          | cons q pool =>
            rw [hp] at hhead
            exact hhead
        have hempty (i : Nat) (p : RolePair) : s.pairAt i ≠ some p := by
          intro hp
          exact h.rolePair_of_pairAt hp hfirst
        refine ⟨?_, ?_, ⟨hfresh'.among, hfresh'.pool, hfresh'.live⟩, fun _ hp => hp⟩
        · refine { hinv with first := ?_, unset := ?_, leased := ?_ }
          · intro p hp
            cases hp
            exact ⟨hpool, hiso⟩
          · intro hno
            cases hno
          · intro holder i hi
            rw [hgrown.leases] at hi
            obtain ⟨p, -, -, -, hp⟩ := h.leased holder i hi
            exact absurd hp (hempty i p.pair)
        · refine { hgrown with pairAt := ?_ }
          intro i p hp
          exact absurd hp (hempty i p)
      · exact ⟨hinv, hgrown, hfresh', fun _ hp => nomatch hp⟩

theorem pairAt_lt {i : Nat} (hset : s.rolePair ≠ none) (hi : i < 1 + s.rolePairs.length) :
    ∃ p, s.pairAt i = some p := by
  rw [pairAt_eq hset]
  apply Option.ne_none_iff_exists'.mp
  intro hnone
  rw [List.getElem?_eq_none_iff, List.length_append] at hnone
  obtain ⟨p, hp⟩ := Option.ne_none_iff_exists'.mp hset
  rw [hp] at hnone
  have hone : (some p).toList.length = 1 := rfl
  omega

theorem Inv.widen (h : Inv s) {pairs : List RolePair} (hset : s.rolePair ≠ none)
    (hbegins : s.rolePairs <+: pairs) (hpairs : pairs <+: s.rolePool.tail.filter s.isolated) :
    Inv { s with rolePairs := pairs } ∧ Grown s { s with rolePairs := pairs } := by
  have hkept (i : Nat) (p : RolePair) (hp : s.pairAt i = some p) :
      ({ s with rolePairs := pairs } : Producers).pairAt i = some p := by
    cases i with
    | zero => exact hp
    | succ i =>
      obtain ⟨more, rfl⟩ := hbegins
      obtain ⟨hlt, hget⟩ := List.getElem?_eq_some_iff.mp hp
      show (s.rolePairs ++ more)[i]? = some p
      rw [List.getElem?_append_left hlt]
      exact hp
  constructor
  · refine { h with pairs := hpairs, unset := ?_, leased := ?_ }
    · intro hnone
      exact absurd hnone hset
    · intro holder i hi
      obtain ⟨p, hp, hholder, hindex, hat⟩ := h.leased holder i hi
      exact ⟨p, hp, hholder, hindex, hkept i p.pair hat⟩
  · exact ⟨⟨[], (List.append_nil _).symm⟩, hkept, rfl, rfl, rfl, rfl, rfl⟩

theorem ensureProducerPool_spec (h : Inv s) {offers : Offers} (hfresh : s.Fresh offers) (width : Nat) :
    Inv (s.ensureProducerPool width offers).2 ∧ Grown s (s.ensureProducerPool width offers).2 ∧
      (∀ i < (s.ensureProducerPool width offers).1,
        ∃ p, (s.ensureProducerPool width offers).2.pairAt i = some p) ∧
      (s.ensureProducerPool width offers).1 ≤ max 1 width := by
  obtain ⟨hinv, hgrown, hfresh', hrole⟩ := producerRolePair_spec h hfresh
  unfold ensureProducerPool
  generalize s.producerRolePair offers = asked at hinv hgrown hfresh' hrole ⊢
  obtain ⟨first, t, rest⟩ := asked
  dsimp only at hinv hgrown hfresh' hrole ⊢
  cases first with
  | none => exact ⟨hinv, hgrown, fun i hi => absurd hi (Nat.not_lt_zero i), Nat.zero_le _⟩
  | some first =>
    have hfirst := hrole first rfl
    have hset : t.rolePair ≠ none := by
      rw [hfirst]
      exact Option.some_ne_none first
    dsimp only
    split
    · rename_i hwide
      obtain ⟨hpairs, hinv', hgrown', -, hsame, hsames⟩ := buildRolePairs_spec hinv hfresh' (width + 1)
      generalize t.buildRolePairs (width + 1) rest = built at hpairs hinv' hgrown' hsame hsames ⊢
      obtain ⟨pairs, u, rest'⟩ := built
      dsimp only at hpairs hinv' hgrown' hsame hsames ⊢
      have husame : u.rolePair = some first := hsame.trans hfirst
      have huset : u.rolePair ≠ none := by
        rw [husame]
        exact Option.some_ne_none first
      obtain ⟨hhead, -⟩ := hinv'.first first husame
      obtain ⟨others, hpool⟩ := List.head?_eq_some_iff.mp hhead
      have hextra : pairs.tail.filter (fun pair => u.isolated pair && pair ≠ first) =
          (others.take (width - 1)).filter u.isolated := by
        rw [hpairs, hpool]
        obtain ⟨w, rfl⟩ : ∃ w, width = w + 1 := ⟨width - 1, by omega⟩
        rw [Nat.add_sub_cancel, Nat.add_sub_cancel, List.take_succ_cons, List.tail_cons]
        apply List.filter_congr
        intro q hq
        have hapart := hinv'.pool
        rw [hpool] at hapart
        have hne := ((List.pairwise_cons.mp hapart).1 q (List.mem_of_mem_take hq)).ne
        rw [decide_eq_true hne.symm, Bool.and_true]
      rw [hextra]
      split
      · rename_i hmore
        have hout : ((others.take (width - 1)).filter u.isolated).take (width - 1) <+:
            u.rolePool.tail.filter u.isolated := by
          rw [hpool, List.tail_cons]
          exact (List.take_prefix _ _).trans ((List.take_prefix _ _).filter _)
        have hin : u.rolePairs <+:
            ((others.take (width - 1)).filter u.isolated).take (width - 1) := by
          apply List.prefix_of_prefix_length_le hinv'.pairs hout
          rw [List.length_take]
          rw [hsames] at hmore ⊢
          omega
        obtain ⟨hinv'', hgrown''⟩ := hinv'.widen huset hin hout
        refine ⟨hinv'', (hgrown.trans hgrown').trans hgrown'', ?_, Nat.min_le_left _ _⟩
        intro i hi
        apply pairAt_lt
        · exact huset
        · exact Nat.lt_of_lt_of_le hi (Nat.min_le_right _ _)
      · refine ⟨hinv', hgrown.trans hgrown', ?_, Nat.min_le_left _ _⟩
        intro i hi
        exact pairAt_lt huset (Nat.lt_of_lt_of_le hi (Nat.min_le_right _ _))
    · refine ⟨hinv, hgrown, ?_, Nat.min_le_left _ _⟩
      intro i hi
      exact pairAt_lt hset (Nat.lt_of_lt_of_le hi (Nat.min_le_right _ _))

theorem mem_held {i : Nat} : i ∈ s.held ↔ ∃ holder, Dict.get s.pairLeases holder = some i := by
  unfold held
  rw [List.mem_map]
  constructor
  · rintro ⟨e, he, rfl⟩
    refine ⟨e.1, ?_⟩
    unfold Dict.get
    rw [Table.get_of_mem he]
    rfl
  · rintro ⟨holder, hi⟩
    obtain ⟨e, he, rfl⟩ := Option.map_eq_some_iff.mp hi
    exact ⟨e, Table.mem_of_get he, rfl⟩

/-! ## Leases -/

structure Leased (s s' : Producers) (holder : Holder) (index : Nat) : Prop where
  inv : Inv { s' with pairLeases := s.pairLeases }
  grown : Grown s { s' with pairLeases := s.pairLeases }
  leases : s'.pairLeases = s.pairLeases.set holder index
  at_index : ∃ p, s'.pairAt index = some p
  free : s.RawClear holder → index ∉ s.held
  allowed : index < allowance (speculativeProducerWidth s.width)

theorem idle_iff {holder : Holder} : s.idle holder = true ↔ ∀ p ∈ s.live, p.holder ≠ holder := by
  unfold idle
  rw [List.all_eq_true]
  simp only [decide_eq_true_eq]

theorem Inv.get_of_idle (h : Inv s) {holder : Holder} (hidle : s.idle holder = true) :
    Dict.get s.pairLeases holder = none := by
  cases hget : Dict.get s.pairLeases holder with
  | none => rfl
  | some i =>
    obtain ⟨p, hp, hholder, -⟩ := h.leased holder i hget
    exact absurd hholder (idle_iff.mp hidle p hp)

theorem allowance_ge {width : Nat} : width ≤ allowance width := by
  unfold allowance
  split <;> omega

theorem producerPairFor_spec (h : Inv s) {offers : Offers} (hfresh : s.Fresh offers) {holder : Holder}
    (hidle : s.idle holder = true) :
    (∃ t, s.producerPairFor holder (speculativeProducerWidth s.width) offers = (none, t) ∧ Inv t ∧
      Grown s t) ∨
    ∃ index t, s.producerPairFor holder (speculativeProducerWidth s.width) offers = (some index, t) ∧
      Leased s t holder index := by
  have hnone := h.get_of_idle hidle
  unfold producerPairFor
  rw [hnone]
  dsimp only
  split
  · rename_i hraw
    obtain ⟨rfl, hwide⟩ := hraw
    obtain ⟨hinv, hgrown, hpairs, -⟩ :=
      ensureProducerPool_spec h hfresh (speculativeProducerWidth s.width + 1)
    rcases hasked : s.ensureProducerPool (speculativeProducerWidth s.width + 1) offers with ⟨pool, t⟩
    rw [hasked] at hinv hgrown hpairs
    dsimp only at hinv hgrown hpairs ⊢
    split
    · exact .inl ⟨t, rfl, hinv, hgrown⟩
    · rename_i hpool
      right
      refine ⟨_, _, rfl, ?_⟩
      have hsame : { t with pairLeases := s.pairLeases } = t := by
        rw [← hgrown.leases]
      refine ⟨?_, ?_, ?_, hpairs _ (by omega), fun hclear => hclear rfl hwide, ?_⟩
      · dsimp only
        rw [hsame]
        exact hinv
      · dsimp only
        rw [hsame]
        exact hgrown
      · dsimp only
        rw [hgrown.leases]
      · unfold allowance
        rw [if_pos hwide]
        exact Nat.lt_succ_self _
  · obtain ⟨hinv, hgrown, hpairs, hle⟩ :=
      ensureProducerPool_spec h hfresh (speculativeProducerWidth s.width)
    rcases hasked : s.ensureProducerPool (speculativeProducerWidth s.width) offers with ⟨pool, t⟩
    rw [hasked] at hinv hgrown hpairs hle
    dsimp only at hinv hgrown hpairs hle ⊢
    cases hfind : (List.range pool).find? (· ∉ t.held) with
    | none => exact .inl ⟨t, rfl, hinv, hgrown⟩
    | some index =>
      right
      refine ⟨_, _, rfl, ?_⟩
      have hfree := List.find?_some hfind
      have hlt := List.mem_range.mp (List.mem_of_find?_eq_some hfind)
      have hone := one_le_width s.width
      have hsame : { t with pairLeases := s.pairLeases } = t := by
        rw [← hgrown.leases]
      have hheld : t.held = s.held := by
        unfold held
        rw [hgrown.leases]
      refine ⟨?_, ?_, ?_, hpairs index hlt, ?_, ?_⟩
      · dsimp only
        rw [hsame]
        exact hinv
      · dsimp only
        rw [hsame]
        exact hgrown
      · dsimp only
        rw [hgrown.leases]
      · intro _
        rw [hheld] at hfree
        simpa using hfree
      · apply Nat.lt_of_lt_of_le hlt
        apply Nat.le_trans hle
        rw [Nat.max_eq_right hone]
        exact allowance_ge

theorem Inv.holder_inj (h : Inv s) {p q : Producer} (hp : p ∈ s.live) (hq : q ∈ s.live)
    (heq : p.holder = q.holder) : p = q :=
  List.inj_on_of_nodup_map h.holders hp hq heq

theorem Inv.pairAt_of_leased (h : Inv s) {p : Producer} {i : Nat} (hp : p ∈ s.live)
    (hi : Dict.get s.pairLeases p.holder = some i) : p.index = i ∧ s.pairAt i = some p.pair := by
  obtain ⟨q, hq, hholder, hindex, hat⟩ := h.leased p.holder i hi
  cases h.holder_inj hq hp hholder
  exact ⟨hindex, hat⟩

theorem Inv.start (h : Inv s) {holder : Holder} {pair : RolePair} {width index : Nat}
    (hidle : s.idle holder = true) (hpair : s.pairAt index = some pair) (hfree : index ∉ s.held)
    (hallowed : index < allowance width) :
    Inv { s with pairLeases := s.pairLeases.set holder index
                 live := s.live ++ [{ holder, pair, width, index }] } := by
  have hne := idle_iff.mp hidle
  obtain ⟨hmem, hiso⟩ := h.pairAt_mem hpair
  refine { h with holders := ?_, leased := ?_, indices := ?_, retired := ?_, apart := ?_, primary := ?_,
                  allowed := ?_ }
  · dsimp only
    rw [List.map_append, List.nodup_append]
    refine ⟨h.holders, List.nodup_singleton _, ?_⟩
    intro a ha b hb
    obtain ⟨p, hp, rfl⟩ := List.mem_map.mp ha
    cases List.mem_singleton.mp hb
    exact hne p hp
  · intro other i hi
    dsimp only at hi
    rw [Dict.get_set] at hi
    split at hi
    · rename_i hsame
      cases hi
      exact ⟨_, List.mem_append_right _ (List.mem_singleton.mpr rfl), hsame.symm, rfl, hpair⟩
    · obtain ⟨p, hp, hholder, hindex, hat⟩ := h.leased other i hi
      exact ⟨p, List.mem_append_left _ hp, hholder, hindex, hat⟩
  · intro a b i ha hb
    dsimp only at ha hb
    rw [Dict.get_set] at ha hb
    split at ha
    · rename_i hsame
      split at hb
      · rename_i hsame'
        rw [hsame, hsame']
      · cases ha
        exact absurd (mem_held.mpr ⟨b, hb⟩) hfree
    · split at hb
      · cases hb
        exact absurd (mem_held.mpr ⟨a, ha⟩) hfree
      · exact h.indices a b i ha hb
  · intro p hp hnone
    dsimp only at hnone
    rw [Dict.get_set] at hnone
    split at hnone
    · cases hnone
    · rename_i hother
      rcases List.mem_append.mp hp with hp | hp
      · exact h.retired p hp hnone
      · cases List.mem_singleton.mp hp
        exact absurd rfl hother
  · dsimp only
    rw [List.pairwise_append]
    refine ⟨h.apart, List.pairwise_singleton _ _, ?_⟩
    intro l hl p hp
    cases List.mem_singleton.mp hp
    dsimp only
    cases hget : Dict.get s.pairLeases l.holder with
    | none => exact h.retired l hl hget pair hmem
    | some i =>
      obtain ⟨-, hat⟩ := h.pairAt_of_leased hl hget
      apply h.pairAt_apart hat hpair
      rintro rfl
      exact hfree (mem_held.mpr ⟨l.holder, hget⟩)
  · intro p hp
    rcases List.mem_append.mp hp with hp | hp
    · exact h.primary p hp
    · cases List.mem_singleton.mp hp
      exact hiso
  · intro p hp
    rcases List.mem_append.mp hp with hp | hp
    · exact h.allowed p hp
    · cases List.mem_singleton.mp hp
      exact hallowed

theorem Inv.finish (h : Inv s) (holder : Holder) :
    Inv { s.releaseProducerPair holder with live := s.live.filter (·.holder ≠ holder) } := by
  have hsub : (s.live.filter (·.holder ≠ holder)).Sublist s.live := List.filter_sublist
  have hkept (p : Producer) : p ∈ s.live.filter (·.holder ≠ holder) ↔ p ∈ s.live ∧ p.holder ≠ holder := by
    rw [List.mem_filter, decide_eq_true_eq]
  refine { h with holders := ?_, leased := ?_, indices := ?_, retired := ?_, apart := ?_, primary := ?_,
                  allowed := ?_ }
  · exact h.holders.sublist (hsub.map _)
  · intro other i hi
    unfold releaseProducerPair at hi
    dsimp only at hi
    rw [Dict.get_erase] at hi
    split at hi
    · cases hi
    · rename_i hother
      obtain ⟨p, hp, hholder, hindex, hat⟩ := h.leased other i hi
      refine ⟨p, (hkept p).mpr ⟨hp, ?_⟩, hholder, hindex, hat⟩
      rw [hholder]
      exact hother
  · intro a b i ha hb
    unfold releaseProducerPair at ha hb
    dsimp only at ha hb
    rw [Dict.get_erase] at ha hb
    split at ha
    · cases ha
    · split at hb
      · cases hb
      · exact h.indices a b i ha hb
  · intro p hp hnone
    obtain ⟨hp, hother⟩ := (hkept p).mp hp
    unfold releaseProducerPair at hnone
    dsimp only at hnone
    rw [Dict.get_erase, if_neg hother] at hnone
    exact h.retired p hp hnone
  · exact h.apart.sublist hsub
  · intro p hp
    exact h.primary p ((hkept p).mp hp).1
  · intro p hp
    exact h.allowed p ((hkept p).mp hp).1

theorem isolated_iff {pair : RolePair} :
    s.isolated pair = true ↔ pair.1 ≠ s.researcher ∧ pair.2 ≠ s.developer := by
  unfold isolated
  rw [Bool.and_eq_true, decide_eq_true_eq, decide_eq_true_eq]

theorem Inv.renew (h : Inv s) {researcher developer : Role} {pool : List RolePair} {generation : Nat}
    (hpool : pool.Pairwise RolesApart)
    (hlive : ∀ p ∈ s.live, ∀ q ∈ pool, RolesApart p.pair q)
    (hprimary : ∀ p ∈ s.live, p.pair.1 ≠ researcher ∧ p.pair.2 ≠ developer) :
    Inv { s with researcher, developer, rolePool := pool, rolePair := none, rolePairs := []
                 pairLeases := Table.empty, builderGeneration := generation } where
  holders := h.holders
  pool := hpool
  first := by
    intro p hp
    cases hp
  pairs := List.nil_prefix
  unset _ := rfl
  leased := by
    intro holder i hi
    cases hi
  indices := by
    intro a b i ha
    cases ha
  retired p hp _ := hlive p hp
  apart := h.apart
  primary := by
    intro p hp
    exact isolated_iff.mpr (hprimary p hp)
  allowed := h.allowed

theorem rewrapped_apart {pool : List RolePair} {pooled : Nat → Role} (hpool : pool.Pairwise RolesApart)
    (hpooled : ∀ i j, pooled i = pooled j → i = j) : (rewrapped pool pooled).Pairwise RolesApart := by
  rw [List.pairwise_iff_getElem] at hpool ⊢
  intro i j hi hj hij
  unfold rewrapped at hi hj ⊢
  rw [List.length_map, List.length_zipIdx] at hi hj
  rw [List.getElem_map, List.getElem_map, List.getElem_zipIdx, List.getElem_zipIdx]
  dsimp only
  constructor
  · intro heq
    have hsame := hpooled _ _ heq
    omega
  · exact (hpool i j hi hj hij).2

theorem Inv.congr_leases (h : Inv s) {leases : Dict Holder Nat}
    (hget : ∀ holder, Dict.get leases holder = Dict.get s.pairLeases holder) :
    Inv { s with pairLeases := leases } where
  holders := h.holders
  pool := h.pool
  first := h.first
  pairs := h.pairs
  unset := h.unset
  leased := by
    intro holder i hi
    dsimp only at hi
    rw [hget] at hi
    exact h.leased holder i hi
  indices := by
    intro a b i ha hb
    dsimp only at ha hb
    rw [hget] at ha hb
    exact h.indices a b i ha hb
  retired := by
    intro p hp hnone
    dsimp only at hnone
    rw [hget] at hnone
    exact h.retired p hp hnone
  apart := h.apart
  primary := h.primary
  allowed := h.allowed

theorem Inv.step (h : Inv s) {op : ProducerOp} (hpromised : s.Promised op) (hclear : s.Clear op)
    (hnext : s.step op = some s') : Inv s' := by
  cases op with
  | rewidth width =>
    cases hnext
    exact { h with }
  | batch n offers =>
    cases hnext
    exact (buildRolePairs_spec h hpromised n).2.1
  | capacity offers =>
    cases hnext
    exact (ensureProducerPool_spec h hpromised _).1
  | start holder offers =>
    dsimp only [Producers.step] at hnext
    split at hnext
    · rename_i hidle
      rcases producerPairFor_spec h hpromised hidle with ⟨t, hasked, hinv, -⟩ | ⟨index, t, hasked, hleased⟩
      · rw [hasked] at hnext
        cases hnext
        exact hinv
      · rw [hasked] at hnext
        obtain ⟨pair, hpair, rfl⟩ := Option.map_eq_some_iff.mp hnext
        obtain ⟨hinv, hgrown, hleases, -, hfree, hallowed⟩ := hleased
        have hidle' : ({ t with pairLeases := s.pairLeases } : Producers).idle holder = true := by
          rw [idle_iff, hgrown.live]
          exact idle_iff.mp hidle
        have hstart := hinv.start hidle' hpair (hfree hclear) hallowed
        dsimp only at hstart
        rw [← hleases] at hstart
        exact hstart
    · cases hnext
  | startFails holder offers =>
    dsimp only [Producers.step] at hnext
    split at hnext
    · rename_i hidle
      have hnone := h.get_of_idle hidle
      cases hnext
      rcases producerPairFor_spec h hpromised hidle with ⟨t, hasked, hinv, hgrown⟩ | ⟨index, t, hasked, hleased⟩
      · rw [hasked]
        apply hinv.congr_leases
        intro other
        rw [hgrown.leases, Dict.get_erase]
        split
        · rename_i hsame
          rw [hsame, hnone]
        · rfl
      · rw [hasked]
        have hback := @Inv.congr_leases _ hleased.inv (t.pairLeases.erase holder) ?_
        · exact hback
        · intro other
          rw [hleased.leases, Dict.get_erase, Dict.get_set]
          split
          · rename_i hsame
            rw [hsame]
            exact hnone.symm
          · rfl
    · cases hnext
  | finish holder =>
    cases hnext
    exact h.finish holder
  | swapDeveloper developer =>
    cases hnext
    apply h.renew .nil
    · intro p _ q hq
      cases hq
    · intro p hp
      exact ⟨(isolated_iff.mp (h.primary p hp)).1, hpromised p hp⟩
  | wrapResearchers researcher pooled =>
    obtain ⟨hresearcher, hpooled⟩ := hpromised
    have hprimary (p : Producer) (hp : p ∈ s.live) : p.pair.1 ≠ researcher ∧ p.pair.2 ≠ s.developer :=
      ⟨hresearcher p hp, (isolated_iff.mp (h.primary p hp)).2⟩
    dsimp only [Producers.step] at hnext
    split at hnext
    · rename_i hempty
      cases hnext
      have hunset : s.rolePair = none := by
        cases hfirst : s.rolePair with
        | none => rfl
        | some p =>
          have hhead := (h.first p hfirst).1
          rw [hempty] at hhead
          cases hhead
      refine { h with first := ?_, pairs := ?_, primary := ?_ }
      · intro p hp
        dsimp only at hp
        rw [hunset] at hp
        cases hp
      · dsimp only
        rw [h.unset hunset]
        exact List.nil_prefix
      · intro p hp
        exact isolated_iff.mpr (hprimary p hp)
    · rename_i hpool
      cases hnext
      apply h.renew
      · exact rewrapped_apart h.pool hpooled
      · exact hclear.resolve_left hpool
      · exact hprimary

theorem Inv.init (researcher developer : Role) (width : BuildWidth) :
    Inv { researcher, developer, width } where
  holders := .nil
  pool := .nil
  first := by
    intro p hp
    cases hp
  pairs := List.nil_prefix
  unset _ := rfl
  leased := by
    intro holder i hi
    cases hi
  indices := by
    intro a b i ha
    cases ha
  retired := by
    intro p hp
    cases hp
  apart := .nil
  primary := by
    intro p hp
    cases hp
  allowed := by
    intro p hp
    cases hp

theorem Inv.kept (h : Inv s) : Kept s where
  apart := h.apart
  isolated p hp := isolated_iff.mp (h.primary p hp)
  released := by
    intro holder index hi
    obtain ⟨p, hp, rfl, hindex, hat⟩ := h.leased holder index hi
    refine ⟨p, ?_, hindex, hat⟩
    have hnodup : (s.live.filter (·.holder = p.holder)).Nodup := (List.Nodup.of_map _ h.holders).filter _
    have hall : ∀ q ∈ s.live.filter (·.holder = p.holder), q = p := by
      intro q hq
      obtain ⟨hq, hsame⟩ := List.mem_filter.mp hq
      exact h.holder_inj hq hp (of_decide_eq_true hsame)
    have hmem : p ∈ s.live.filter (·.holder = p.holder) :=
      List.mem_filter.mpr ⟨hp, decide_eq_true rfl⟩
    cases hlist : s.live.filter (·.holder = p.holder) with
    | nil =>
      rw [hlist] at hmem
      cases hmem
    | cons q rest =>
      rw [hlist] at hnodup hall
      obtain rfl := hall q List.mem_cons_self
      cases rest with
      | nil => rfl
      | cons r rest =>
        obtain rfl := hall r (List.mem_cons_of_mem _ List.mem_cons_self)
        simp at hnodup
  granted := by
    intro width
    have hmem (p : Producer) (hp : p ∈ s.grantedAt width) :
        p ∈ s.live ∧ Dict.get s.pairLeases p.holder = some p.index ∧ p.width = width := by
      obtain ⟨hp, hcond⟩ := List.mem_filter.mp hp
      exact ⟨hp, of_decide_eq_true hcond⟩
    have hnodup : (s.grantedAt width).Nodup := (List.Nodup.of_map _ h.holders).filter _
    have hindices : ((s.grantedAt width).map (·.index)).Nodup := by
      apply hnodup.map_on
      intro p hp q hq heq
      obtain ⟨hp, hpget, -⟩ := hmem p hp
      obtain ⟨hq, hqget, -⟩ := hmem q hq
      rw [heq] at hpget
      exact h.holder_inj hp hq (h.indices p.holder q.holder q.index hpget hqget)
    have hrange : (s.grantedAt width).map (·.index) ⊆ List.range (allowance width) := by
      intro i hi
      obtain ⟨p, hp, rfl⟩ := List.mem_map.mp hi
      obtain ⟨hlive, -, rfl⟩ := hmem p hp
      exact List.mem_range.mpr (h.allowed p hlive)
    have hlen := (List.subperm_of_subset hindices hrange).length_le
    rw [List.length_map, List.length_range] at hlen
    exact hlen

/-- In every run whose steps are clear, the producers keep apart. -/
theorem producers_keep_apart {s : Producers} (run : Run Clear s) : Kept s := by
  have hinv : Inv s := by
    induction run with
    | init researcher developer width => exact Inv.init researcher developer width
    | step op run promised clear next ih => exact ih.step promised clear next
  exact hinv.kept

def threePairs : Offers := [some (10, 11), some (20, 21), some (30, 31)]

/-- The operator's width. -/
def operatorWidth (width : Int) : BuildWidth :=
  { startupAuto := false, llmParallel := width, overridden := true }

def buildOf (card : String) : Holder := .build card 0

/-- The state after steps that are all possible. -/
def after (s : Producers) : List ProducerOp → Producers
  | [] => s
  | op :: ops => after ((s.step op).getD s) ops

def atWidth (width : Int) : Producers := { researcher := 0, developer := 1, width := operatorWidth width }

def startBuild (card : String) (offers : Offers) : ProducerOp := .start (buildOf card) offers

theorem fresh_nil (s : Producers) : s.Fresh [] :=
  ⟨.nil, List.forall_mem_nil _, List.forall_mem_nil _⟩

/-- Two builds and a proposal at width two. -/
theorem producers_keep_apart_two :
    Kept ((atWidth 2).after
      [startBuild "card-1" threePairs, startBuild "card-2" [], .start .raw [some (30, 31)]]) := by
  have h₀ : Run Clear (atWidth 2) := .init 0 1 (operatorWidth 2)
  have h₁ : Run Clear ((atWidth 2).after [startBuild "card-1" threePairs]) :=
    h₀.step (startBuild "card-1" threePairs) ⟨by decide, by decide, by decide⟩ (fun hraw => nomatch hraw) rfl
  have h₂ : Run Clear ((atWidth 2).after [startBuild "card-1" threePairs, startBuild "card-2" []]) :=
    h₁.step (startBuild "card-2" []) (fresh_nil _) (fun hraw => nomatch hraw) rfl
  apply producers_keep_apart
  exact h₂.step (.start .raw [some (30, 31)]) ⟨by decide, by decide, by decide⟩ (fun _ _ => by decide) rfl

/-- As the operator narrows the width from three to two while three builds run, the proposal lane is
given the pair of the third build. -/
theorem narrowed_lane_shares_pair : ∃ s, Run (fun _ _ => True) s ∧ ∃ p ∈ s.live, ∃ q ∈ s.live,
    p.holder = buildOf "card-3" ∧ q.holder = .raw ∧ p.pair = q.pair := by
  have h₀ : Run (fun _ _ => True) (atWidth 3) := .init 0 1 (operatorWidth 3)
  have h₁ : Run (fun _ _ => True) ((atWidth 3).after [startBuild "card-1" threePairs]) :=
    h₀.step (startBuild "card-1" threePairs) ⟨by decide, by decide, by decide⟩ trivial rfl
  have h₂ : Run (fun _ _ => True)
      ((atWidth 3).after [startBuild "card-1" threePairs, startBuild "card-2" []]) :=
    h₁.step (startBuild "card-2" []) (fresh_nil _) trivial rfl
  have h₃ : Run (fun _ _ => True) ((atWidth 3).after
      [startBuild "card-1" threePairs, startBuild "card-2" [], startBuild "card-3" []]) :=
    h₂.step (startBuild "card-3" []) (fresh_nil _) trivial rfl
  have h₄ : Run (fun _ _ => True) ((atWidth 3).after
      [startBuild "card-1" threePairs, startBuild "card-2" [], startBuild "card-3" [],
       .rewidth (operatorWidth 2)]) :=
    h₃.step (.rewidth (operatorWidth 2)) trivial trivial rfl
  refine ⟨(atWidth 3).after
    [startBuild "card-1" threePairs, startBuild "card-2" [], startBuild "card-3" [],
     .rewidth (operatorWidth 2), .start .raw []], h₄.step (.start .raw []) (fresh_nil _) trivial rfl, ?_⟩
  decide

end Producers

end LoopLab.Engine
