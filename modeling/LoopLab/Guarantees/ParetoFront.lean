import LoopLab.Lib.Custody
import LoopLab.Selection.Pareto
import Mathlib.Algebra.Order.Ring.Rat

/-!
# The front of a pool and its leader

Dominance on the axes of a pool is a strict order, so the front covers the pool and does not depend on its order.
-/

set_option autoImplicit false

namespace LoopLab.Selection.Pareto
open Lib

section Axes
variable {direction k d : String} {n m : Candidate} {pool pool' : List Candidate}

theorem intersect_get {common here : Dict String String} :
    (intersect common here).get k = some d ↔ common.get k = some d ∧ here.get k = some d := by
  rw [← Dict.mem_rows, ← Dict.mem_rows]
  unfold intersect Table.collect
  rw [List.mem_filterMap]
  constructor
  · rintro ⟨⟨k', d'⟩, hmem, hif⟩
    dsimp only at hif
    split at hif
    · rename_i hhere
      cases hif
      exact ⟨hmem, hhere⟩
    · cases hif
  · rintro ⟨hmem, hhere⟩
    exact ⟨(k, d), hmem, if_pos hhere⟩

/-- Every node of the pool records the axis, oriented alike. -/
def Axis (pool : List Candidate) (k d : String) : Prop := ∀ n ∈ pool, (axesOf n).get k = some d

theorem common_get : (pool.foldl (fun common m => intersect common (axesOf m)) (axesOf n)).get k = some d ↔
    Axis (n :: pool) k d := by
  have hall (common : Dict String String) :
      (pool.foldl (fun common m => intersect common (axesOf m)) common).get k = some d ↔
        common.get k = some d ∧ Axis pool k d := by
    induction pool generalizing common with
    | nil => simp [Axis]
    | cons m pool ih =>
      rw [List.foldl_cons, ih, intersect_get]
      unfold Axis
      rw [List.forall_mem_cons, and_assoc]
  rw [hall]
  unfold Axis
  rw [List.forall_mem_cons]

theorem axis_of_axesOf (h : (axesOf n).get k = some d) :
    (∃ v, n.extraMetrics.get k = some v ∧ isUsableMetric v = true) ∧ (d = "min" ∨ d = "max") := by
  rw [← Dict.mem_rows] at h
  unfold axesOf Table.collect at h
  obtain ⟨⟨k', v⟩, hmem, hif⟩ := List.mem_filterMap.mp h
  dsimp only at hif
  split at hif
  · rename_i hcond
    obtain ⟨d', hd', heq⟩ := Option.map_eq_some_iff.mp hif
    cases heq
    obtain ⟨found, -, hfound⟩ := Option.bind_eq_some_iff.mp hd'
    have hdir := (Option.filter_eq_some_iff.mp hfound).2
    refine ⟨⟨v, Dict.mem_rows.mp hmem, (Bool.and_eq_true_iff.mp hcond).2⟩, ?_⟩
    simpa [DIRECTIONS] using hdir
  · cases hif

theorem num_of_usable {v : Json} (h : isUsableMetric v = true) : ∃ q, v.num? = some q := by
  cases v with
  | int i => exact ⟨i, rfl⟩
  | float q => exact ⟨q, rfl⟩
  | null | bool b | str s | arr xs | obj fields => cases h

theorem objectives_get (hne : pool ≠ []) :
    (paretoObjectives direction pool).get k = some d ↔
      Axis pool k d ∨ (k = PRIMARY_OBJECTIVE ∧ d = runDirection direction ∧ ∀ d', ¬ Axis pool k d') := by
  cases pool with
  | nil => exact absurd rfl hne
  | cons n pool =>
    unfold paretoObjectives
    rw [Dict.get_update, Option.or_eq_some_iff, common_get, Dict.get_set, Dict.get_empty]
    have hnone : (pool.foldl (fun common m => intersect common (axesOf m)) (axesOf n)).get k = none ↔
        ∀ d', ¬ Axis (n :: pool) k d' := by
      rw [Option.eq_none_iff_forall_ne_some]
      exact forall_congr' fun d' => not_congr common_get
    rw [hnone]
    apply or_congr_right
    by_cases hk : k = PRIMARY_OBJECTIVE
    · rw [if_pos hk, Option.some.injEq]
      constructor
      · rintro ⟨hnot, rfl⟩
        exact ⟨hk, rfl, hnot⟩
      · rintro ⟨-, rfl, hnot⟩
        exact ⟨hnot, rfl⟩
    · rw [if_neg hk]
      constructor
      · rintro ⟨-, hd⟩
        cases hd
      · exact fun h => absurd h.1 hk

theorem axis_perm (h : pool.Perm pool') : Axis pool k d ↔ Axis pool' k d := by
  unfold Axis
  exact ⟨fun hall n hn => hall n (h.mem_iff.mpr hn), fun hall n hn => hall n (h.mem_iff.mp hn)⟩

end Axes

/-- The value of a node on an axis that it has. -/
def worth (n : Candidate) (k : String) : Rat := (valueOn n k).getD 0

section Dominance
variable {direction d : String} {x y z : Rat} {a b c n : Candidate} {pool pool' : List Candidate}

theorem exceeds_trans (h : exceeds d z y = false) (h' : exceeds d y x = false) : exceeds d z x = false := by
  unfold exceeds at *
  split
  · rename_i hmax
    simp only [hmax, if_true, decide_eq_false_iff_not, not_lt] at *
    exact h.trans h'
  · rename_i hmin
    simp only [hmin, if_false, decide_eq_false_iff_not, not_lt] at *
    exact h'.trans h

theorem exceeds_of_lt_of_le (h : exceeds d x y = true) (h' : exceeds d z y = false) : exceeds d x z = true := by
  unfold exceeds at *
  split
  · rename_i hmax
    simp only [hmax, if_true, decide_eq_false_iff_not, not_lt, decide_eq_true_eq] at *
    exact h'.trans_lt h
  · rename_i hmin
    simp only [hmin, if_false, decide_eq_false_iff_not, not_lt, decide_eq_true_eq] at *
    exact h.trans_le h'

theorem exceeds_self (d : String) (x : Rat) : exceeds d x x = false := by
  unfold exceeds
  split <;> simp

theorem eq_of_exceeds (h : exceeds d x y = false) (h' : exceeds d y x = false) : x = y := by
  unfold exceeds at *
  split at h
  · rename_i hmax
    simp only [hmax, if_true, decide_eq_false_iff_not, not_lt] at *
    exact le_antisymm h h'
  · rename_i hmin
    simp only [hmin, if_false, decide_eq_false_iff_not, not_lt] at *
    exact le_antisymm h' h

def Valued (objectives : Dict String String) (n : Candidate) : Prop :=
  ∀ k d, objectives.get k = some d → valueOn n k = some (worth n k)

theorem dominatesFrom_iff (rows : List (String × String)) (strictly : Bool)
    (ha : ∀ r ∈ rows, valueOn a r.1 = some (worth a r.1)) (hb : ∀ r ∈ rows, valueOn b r.1 = some (worth b r.1)) :
    dominatesFrom a b strictly rows = true ↔
      (∀ r ∈ rows, exceeds r.2 (worth b r.1) (worth a r.1) = false) ∧
        (strictly = true ∨ ∃ r ∈ rows, exceeds r.2 (worth a r.1) (worth b r.1) = true) := by
  induction rows generalizing strictly with
  | nil => simp [dominatesFrom]
  | cons r rows ih =>
    obtain ⟨ha0, ha⟩ := List.forall_mem_cons.mp ha
    obtain ⟨hb0, hb⟩ := List.forall_mem_cons.mp hb
    unfold dominatesFrom
    rw [ha0, hb0]
    dsimp only
    rw [List.forall_mem_cons, List.exists_mem_cons_iff]
    split
    · rename_i hworse
      simp [hworse]
    · rename_i hnot
      rw [ih _ ha hb, Bool.or_eq_true, or_assoc]
      simp [Bool.eq_false_of_not_eq_true hnot]

theorem dominates_iff {objectives : Dict String String} (ha : Valued objectives a) (hb : Valued objectives b) :
    dominates objectives a b = true ↔
      (∀ k d, objectives.get k = some d → exceeds d (worth b k) (worth a k) = false) ∧
        ∃ k d, objectives.get k = some d ∧ exceeds d (worth a k) (worth b k) = true := by
  unfold dominates
  rw [dominatesFrom_iff _ false (fun r hr => ha r.1 r.2 (Dict.mem_rows.mp hr))
    (fun r hr => hb r.1 r.2 (Dict.mem_rows.mp hr))]
  simp only [Bool.false_eq_true, false_or, ← Dict.mem_rows, Prod.forall, Prod.exists]

theorem worth_primary (n : Candidate) : worth n PRIMARY_OBJECTIVE = n.metric.num?.getD 0 := by
  unfold worth valueOn
  rw [if_pos rfl]

theorem valued_of_mem (husable : ∀ n ∈ pool, isUsableMetric n.metric = true) (hn : n ∈ pool) :
    Valued (paretoObjectives direction pool) n := by
  intro k d hget
  have hprimary : valueOn n PRIMARY_OBJECTIVE = some (worth n PRIMARY_OBJECTIVE) := by
    obtain ⟨q, hq⟩ := num_of_usable (husable n hn)
    rw [worth_primary]
    unfold valueOn
    rw [if_pos rfl, hq]
    rfl
  by_cases hk : k = PRIMARY_OBJECTIVE
  · rw [hk]
    exact hprimary
  · rcases (objectives_get (List.ne_nil_of_mem hn)).mp hget with haxis | ⟨hk', -⟩
    · obtain ⟨⟨v, hv, husable⟩, -⟩ := axis_of_axesOf (haxis n hn)
      obtain ⟨q, hq⟩ := num_of_usable husable
      unfold worth valueOn
      rw [if_neg hk, hv, Option.bind_some, hq]
      rfl
    · exact absurd hk' hk

theorem strictOn_pool (husable : ∀ n ∈ pool, isUsableMetric n.metric = true) :
    StrictOn (dominates (paretoObjectives direction pool)) pool where
  irrefl a ha := by
    rw [Bool.eq_false_iff, Ne, dominates_iff (valued_of_mem husable ha) (valued_of_mem husable ha)]
    rintro ⟨-, k, d, -, hself⟩
    rw [exceeds_self] at hself
    cases hself
  trans a ha b hb c hc hab hbc := by
    have hva : Valued (paretoObjectives direction pool) a := valued_of_mem husable ha
    have hvb : Valued (paretoObjectives direction pool) b := valued_of_mem husable hb
    have hvc : Valued (paretoObjectives direction pool) c := valued_of_mem husable hc
    rw [dominates_iff hva hvb] at hab
    rw [dominates_iff hvb hvc] at hbc
    rw [dominates_iff hva hvc]
    obtain ⟨k, d, hget, hbetter⟩ := hab.2
    exact ⟨fun k d hget => exceeds_trans (hbc.1 k d hget) (hab.1 k d hget),
      k, d, hget, exceeds_of_lt_of_le hbetter (hbc.1 k d hget)⟩

theorem dominates_perm (husable : ∀ n ∈ pool, isUsableMetric n.metric = true) (h : pool.Perm pool')
    (ha : a ∈ pool) (hb : b ∈ pool) :
    dominates (paretoObjectives direction pool) a b = dominates (paretoObjectives direction pool') a b := by
  have husable' : ∀ n ∈ pool', isUsableMetric n.metric = true := fun n hn => husable n (h.mem_iff.mpr hn)
  have hget (k d : String) : (paretoObjectives direction pool).get k = some d ↔
      (paretoObjectives direction pool').get k = some d := by
    rw [objectives_get (List.ne_nil_of_mem ha), objectives_get (List.ne_nil_of_mem (h.mem_iff.mp ha))]
    simp only [axis_perm h]
  rw [Bool.eq_iff_iff, dominates_iff (valued_of_mem husable ha) (valued_of_mem husable hb),
    dominates_iff (valued_of_mem husable' (h.mem_iff.mp ha)) (valued_of_mem husable' (h.mem_iff.mp hb))]
  simp only [hget]

end Dominance

section Ranking
variable {direction : String} {a b c n leader : Candidate} {pool pool' : List Candidate}

def ahead (direction : String) (a b : Candidate) : Bool :=
  if direction = "max" then precedes b a else precedes a b

theorem precedes_iff : precedes a b = true ↔
    worth a PRIMARY_OBJECTIVE < worth b PRIMARY_OBJECTIVE ∨
      worth a PRIMARY_OBJECTIVE = worth b PRIMARY_OBJECTIVE ∧ a.id ≤ b.id := by
  rw [worth_primary, worth_primary]
  unfold precedes
  simp only [Bool.or_eq_true, Bool.and_eq_true, decide_eq_true_eq]

theorem precedes_trans (h : precedes a b = true) (h' : precedes b c = true) : precedes a c = true := by
  rw [precedes_iff] at *
  rcases h with h | ⟨h, hid⟩
  · rcases h' with h' | ⟨h', -⟩
    · exact .inl (h.trans h')
    · exact .inl (h' ▸ h)
  · rcases h' with h' | ⟨h', hid'⟩
    · exact .inl (h ▸ h')
    · exact .inr ⟨h.trans h', hid.trans hid'⟩

theorem precedes_total (a b : Candidate) : precedes a b = true ∨ precedes b a = true := by
  rw [precedes_iff, precedes_iff]
  rcases lt_trichotomy (worth a PRIMARY_OBJECTIVE) (worth b PRIMARY_OBJECTIVE) with h | h | h
  · exact .inl (.inl h)
  · rcases le_total a.id b.id with hid | hid
    · exact .inl (.inr ⟨h, hid⟩)
    · exact .inr (.inr ⟨h.symm, hid⟩)
  · exact .inr (.inl h)

theorem precedes_antisymm (h : precedes a b = true) (h' : precedes b a = true) : a.id = b.id := by
  rw [precedes_iff] at *
  rcases h with h | ⟨h, hid⟩
  · rcases h' with h' | ⟨h', -⟩
    · exact absurd (h.trans h') (lt_irrefl _)
    · exact absurd h (h' ▸ lt_irrefl _)
  · rcases h' with h' | ⟨-, hid'⟩
    · exact absurd h' (h ▸ lt_irrefl _)
    · exact le_antisymm hid hid'

theorem ahead_trans (a b c : Candidate) (h : ahead direction a b = true) (h' : ahead direction b c = true) :
    ahead direction a c = true := by
  unfold ahead at *
  split
  · rename_i hmax
    rw [if_pos hmax] at h h'
    exact precedes_trans h' h
  · rename_i hmin
    rw [if_neg hmin] at h h'
    exact precedes_trans h h'

theorem ahead_total (a b : Candidate) : (ahead direction a b || ahead direction b a) = true := by
  rw [Bool.or_eq_true]
  unfold ahead
  split
  · exact precedes_total b a
  · exact precedes_total a b

theorem ahead_antisymm (h : ahead direction a b = true) (h' : ahead direction b a = true) : a.id = b.id := by
  unfold ahead at *
  split at h
  · rename_i hmax
    rw [if_pos hmax] at h'
    exact precedes_antisymm h' h
  · rename_i hmin
    rw [if_neg hmin] at h'
    exact precedes_antisymm h h'

theorem mem_rank : n ∈ rankByMetric direction pool ↔ n ∈ pool := List.mem_mergeSort

theorem sorted_rank (direction : String) (pool : List Candidate) :
    (rankByMetric direction pool).Pairwise fun a b => ahead direction a b = true :=
  List.pairwise_mergeSort ahead_trans ahead_total pool

theorem rank_head (h : (rankByMetric direction pool).head? = some leader) :
    leader ∈ pool ∧ ∀ n ∈ pool, ahead direction leader n = true := by
  obtain ⟨rest, hrest⟩ := List.head?_eq_some_iff.mp h
  have hsorted := sorted_rank direction pool
  rw [hrest, List.pairwise_cons] at hsorted
  have hmem (n : Candidate) : n ∈ pool ↔ n = leader ∨ n ∈ rest := by
    rw [← mem_rank, hrest, List.mem_cons]
  refine ⟨(hmem leader).mpr (.inl rfl), fun n hn => ?_⟩
  rcases (hmem n).mp hn with rfl | hn
  · exact (Bool.or_self _).symm.trans (ahead_total n n)
  · exact hsorted.1 n hn

theorem rank_head_iff (hids : ∀ a ∈ pool, ∀ b ∈ pool, a.id = b.id → a = b) :
    (rankByMetric direction pool).head? = some leader ↔
      leader ∈ pool ∧ ∀ n ∈ pool, ahead direction leader n = true := by
  refine ⟨rank_head, fun ⟨hmem, hahead⟩ => ?_⟩
  cases hhead : (rankByMetric direction pool).head? with
  | none =>
    rw [List.head?_eq_none_iff] at hhead
    exact absurd (mem_rank.mpr hmem) (hhead ▸ List.not_mem_nil)
  | some first =>
    obtain ⟨hfirst, hfirst'⟩ := rank_head hhead
    rw [hids first hfirst leader hmem (ahead_antisymm (hfirst' leader hmem) (hahead first hfirst))]

theorem exceeds_of_ahead (h : ahead direction a b = true) :
    exceeds (runDirection direction) (worth b PRIMARY_OBJECTIVE) (worth a PRIMARY_OBJECTIVE) = false := by
  unfold ahead at h
  unfold exceeds runDirection
  split at h
  · rename_i hmax
    rw [if_pos hmax, if_pos rfl, decide_eq_false_iff_not, not_lt]
    rcases precedes_iff.mp h with hlt | ⟨heq, -⟩
    · exact hlt.le
    · exact heq.le
  · rename_i hmin
    rw [if_neg hmin, if_neg (by decide), decide_eq_false_iff_not, not_lt]
    rcases precedes_iff.mp h with hlt | ⟨heq, -⟩
    · exact hlt.le
    · exact heq.le

end Ranking

/-- Every node records an axis named like the metric, oriented against the run. -/
def Flipped (direction : String) (pool : List Candidate) : Prop :=
  ∃ d, Axis pool PRIMARY_OBJECTIVE d ∧ d ≠ runDirection direction

/-- A node that ties the leader's metric, or any node of a flipped pool, equals the leader on every axis when it
is as good as the leader on every shared extra axis. -/
def Stands (direction : String) (pool : List Candidate) (leader : Candidate) : Prop :=
  ∀ o ∈ pool, (worth o PRIMARY_OBJECTIVE = worth leader PRIMARY_OBJECTIVE ∨ Flipped direction pool) →
    (∀ k d, k ≠ PRIMARY_OBJECTIVE → Axis pool k d → exceeds d (worth leader k) (worth o k) = false) →
    worth o PRIMARY_OBJECTIVE = worth leader PRIMARY_OBJECTIVE ∧
      ∀ k d, k ≠ PRIMARY_OBJECTIVE → Axis pool k d → exceeds d (worth o k) (worth leader k) = false

theorem runDirection_cases (direction : String) : runDirection direction = "min" ∨ runDirection direction = "max" := by
  unfold runDirection
  split
  · exact .inr rfl
  · exact .inl rfl

section Leader
variable {direction : String} {leader o : Candidate} {pool : List Candidate}

theorem objectives_extra (hne : pool ≠ []) {k d : String} (hk : k ≠ PRIMARY_OBJECTIVE) :
    (paretoObjectives direction pool).get k = some d ↔ Axis pool k d := by
  rw [objectives_get hne]
  constructor
  · rintro (haxis | ⟨hk', -⟩)
    · exact haxis
    · exact absurd hk' hk
  · exact .inl

theorem objectives_primary (hne : pool ≠ []) :
    ∃ p, (paretoObjectives direction pool).get PRIMARY_OBJECTIVE = some p ∧ (p = "min" ∨ p = "max") ∧
      (Flipped direction pool ↔ p ≠ runDirection direction) := by
  obtain ⟨n, hn⟩ := List.exists_mem_of_ne_nil pool hne
  by_cases haxis : ∃ p, Axis pool PRIMARY_OBJECTIVE p
  · obtain ⟨p, hp⟩ := haxis
    refine ⟨p, (objectives_get hne).mpr (.inl hp), (axis_of_axesOf (hp n hn)).2, ?_⟩
    constructor
    · rintro ⟨d, hd, hne⟩
      have hsame : d = p := Option.some.inj ((hd n hn).symm.trans (hp n hn))
      exact hsame ▸ hne
    · exact fun hne => ⟨p, hp, hne⟩
  · have hnone := not_exists.mp haxis
    refine ⟨runDirection direction, (objectives_get hne).mpr (.inr ⟨rfl, rfl, hnone⟩), runDirection_cases direction, ?_⟩
    constructor
    · rintro ⟨d, hd, -⟩
      exact absurd hd (hnone d)
    · exact fun hne => absurd rfl hne

theorem exceeds_flip {p d : String} (hp : p = "min" ∨ p = "max") (hd : d = "min" ∨ d = "max") (hne : p ≠ d)
    (x y : Rat) : exceeds p x y = exceeds d y x := by
  unfold exceeds
  rcases hp with rfl | rfl <;> rcases hd with rfl | rfl
  · exact absurd rfl hne
  · rfl
  · rfl
  · exact absurd rfl hne

theorem undominated_iff (husable : ∀ n ∈ pool, isUsableMetric n.metric = true) (hleader : leader ∈ pool)
    (hahead : ∀ n ∈ pool, ahead direction leader n = true) :
    (∀ o ∈ pool, dominates (paretoObjectives direction pool) o leader = false) ↔ Stands direction pool leader := by
  have hne := List.ne_nil_of_mem hleader
  obtain ⟨p, hp, hpdir, hflip⟩ := objectives_primary hne
  apply forall₂_congr
  intro o ho
  have hbest := exceeds_of_ahead (hahead o ho)
  -- on the metric the node is as good as the leader exactly when it ties it or the pool is flipped
  have hprimary : exceeds p (worth leader PRIMARY_OBJECTIVE) (worth o PRIMARY_OBJECTIVE) = false ↔
      worth o PRIMARY_OBJECTIVE = worth leader PRIMARY_OBJECTIVE ∨ Flipped direction pool := by
    by_cases hsame : p = runDirection direction
    · rw [hflip, hsame]
      simp only [ne_eq, not_true_eq_false, or_false]
      constructor
      · exact fun h => eq_of_exceeds hbest h
      · intro h
        rw [h]
        exact exceeds_self _ _
    · rw [hflip, exceeds_flip hpdir (runDirection_cases direction) hsame]
      simp [hbest, hsame]
  -- and it is better there exactly when it does not tie it
  have hbetter (h : exceeds p (worth leader PRIMARY_OBJECTIVE) (worth o PRIMARY_OBJECTIVE) = false) :
      exceeds p (worth o PRIMARY_OBJECTIVE) (worth leader PRIMARY_OBJECTIVE) = true ↔
        worth o PRIMARY_OBJECTIVE ≠ worth leader PRIMARY_OBJECTIVE := by
    constructor
    · intro htrue heq
      rw [heq, exceeds_self] at htrue
      cases htrue
    · intro hne'
      by_contra hfalse
      exact hne' (eq_of_exceeds (Bool.eq_false_of_not_eq_true hfalse) h)
  rw [Bool.eq_false_iff, Ne, dominates_iff (valued_of_mem husable ho) (valued_of_mem husable hleader), ← hprimary]
  constructor
  · intro hnot hmetric hextra
    have hasgood : ∀ k d, (paretoObjectives direction pool).get k = some d →
        exceeds d (worth leader k) (worth o k) = false := by
      intro k d hget
      by_cases hk : k = PRIMARY_OBJECTIVE
      · subst hk
        rw [hp, Option.some.injEq] at hget
        exact hget ▸ hmetric
      · exact hextra k d hk ((objectives_extra hne hk).mp hget)
    constructor
    · by_contra hdiffers
      exact hnot ⟨hasgood, PRIMARY_OBJECTIVE, p, hp, (hbetter hmetric).mpr hdiffers⟩
    · intro k d hk haxis
      by_contra htrue
      exact hnot ⟨hasgood, k, d, (objectives_extra hne hk).mpr haxis, eq_true_of_ne_false htrue⟩
  · rintro hstands ⟨hasgood, k, d, hget, hexceeds⟩
    have hmetric := hasgood PRIMARY_OBJECTIVE p hp
    obtain ⟨htie, hequal⟩ := hstands hmetric fun k d hk haxis =>
      hasgood k d ((objectives_extra hne hk).mpr haxis)
    by_cases hk : k = PRIMARY_OBJECTIVE
    · subst hk
      rw [hp, Option.some.injEq] at hget
      exact (hbetter hmetric).mp (hget ▸ hexceeds) htie
    · rw [hequal k d hk ((objectives_extra hne hk).mp hget)] at hexceeds
      cases hexceeds

end Leader

/-- What a front promises: the leader at its head, and nothing left out but what it dominates. -/
structure KeepsLeader (direction : String) (pool : List Candidate) : Prop where
  nonempty : usable pool ≠ [] → paretoFront direction pool ≠ []
  leader : (paretoFront direction pool).head? = (rankByMetric direction (usable pool)).head?
  undominated : ∀ n ∈ paretoFront direction pool, ∀ o ∈ usable pool,
    dominates (paretoObjectives direction (usable pool)) o n = false
  covers : ∀ n ∈ usable pool, n ∉ paretoFront direction pool →
    ∃ m ∈ paretoFront direction pool, dominates (paretoObjectives direction (usable pool)) m n = true
  order : ∀ pool', pool'.Perm pool → paretoFront direction pool' = paretoFront direction pool

section Front
variable {direction : String} {n : Candidate} {pool pool' : List Candidate}

theorem usable_metric (pool : List Candidate) : ∀ n ∈ usable pool, isUsableMetric n.metric = true :=
  fun _ hn => (List.mem_filter.mp hn).2

theorem mem_paretoFront : n ∈ paretoFront direction pool ↔ n ∈ usable pool ∧
    ∀ o ∈ usable pool, dominates (paretoObjectives direction (usable pool)) o n = false := by
  unfold paretoFront
  rw [mem_rank, mem_front]

theorem paretoFront_perm (hids : ∀ a ∈ usable pool, ∀ b ∈ usable pool, a.id = b.id → a = b)
    (h : pool'.Perm pool) : paretoFront direction pool' = paretoFront direction pool := by
  have husable : (usable pool').Perm (usable pool) := h.filter _
  have hfront : (front (dominates (paretoObjectives direction (usable pool'))) (usable pool')).Perm
      (front (dominates (paretoObjectives direction (usable pool))) (usable pool)) := by
    have hsame : front (dominates (paretoObjectives direction (usable pool'))) (usable pool') =
        front (dominates (paretoObjectives direction (usable pool))) (usable pool') := by
      unfold front
      apply List.filter_congr
      intro n hn
      have hany : (usable pool').any (dominates (paretoObjectives direction (usable pool')) · n) =
          (usable pool').any (dominates (paretoObjectives direction (usable pool)) · n) := by
        rw [Bool.eq_iff_iff, List.any_eq_true, List.any_eq_true]
        apply exists_congr
        intro o
        apply and_congr_right
        intro ho
        rw [dominates_perm (usable_metric pool') husable ho hn]
      rw [hany]
    rw [hsame]
    exact front_perm husable
  apply List.Perm.eq_of_pairwise ?_ (sorted_rank direction _) (sorted_rank direction _)
  · exact ((List.mergeSort_perm _ _).trans hfront).trans (List.mergeSort_perm _ _).symm
  · intro a b ha hb hab hba
    have hmem (c : Candidate) (hc : c ∈ paretoFront direction pool') : c ∈ usable pool :=
      husable.mem_iff.mp (mem_paretoFront.mp hc).1
    have hb' : b ∈ usable pool := (mem_paretoFront.mp hb).1
    exact hids a (hmem a ha) b hb' (ahead_antisymm hab hba)

/-- The front keeps the leader at its head exactly when no node ties or, in a flipped pool, beats it. -/
theorem keeps_leader_iff (direction : String) (nodes : Table Candidate.id) (pool : List Candidate)
    (hpool : ∀ n ∈ pool, n ∈ nodes.rows) :
    KeepsLeader direction pool ↔
      ∀ leader, (rankByMetric direction (usable pool)).head? = some leader →
        Stands direction (usable pool) leader := by
  have husable := usable_metric pool
  have hids : ∀ a ∈ usable pool, ∀ b ∈ usable pool, a.id = b.id → a = b := by
    intro a ha b hb hid
    have hget := Table.get_of_mem (hpool a (List.mem_filter.mp ha).1)
    rw [hid, Table.get_of_mem (hpool b (List.mem_filter.mp hb).1)] at hget
    exact (Option.some.inj hget).symm
  have hstrict : StrictOn (dominates (paretoObjectives direction (usable pool))) (usable pool) := strictOn_pool husable
  constructor
  · intro h leader hleader
    obtain ⟨hmem, hahead⟩ := rank_head hleader
    have hfront : leader ∈ paretoFront direction pool := List.mem_of_mem_head? (h.leader.trans hleader)
    exact (undominated_iff husable hmem hahead).mp (mem_paretoFront.mp hfront).2
  · intro h
    constructor
    · intro hne hnil
      unfold paretoFront at hnil
      have hempty := List.mergeSort_perm (front (dominates (paretoObjectives direction (usable pool))) (usable pool))
        fun a b => if direction = "max" then precedes b a else precedes a b
      unfold rankByMetric at hnil
      rw [hnil] at hempty
      exact front_ne_nil hstrict hne hempty.symm.eq_nil
    · cases hleader : (rankByMetric direction (usable pool)).head? with
      | none =>
        rw [List.head?_eq_none_iff] at hleader ⊢
        apply List.eq_nil_iff_forall_not_mem.mpr
        intro n hn
        have hmem : n ∈ rankByMetric direction (usable pool) := mem_rank.mpr (mem_paretoFront.mp hn).1
        rw [hleader] at hmem
        cases hmem
      | some leader =>
        obtain ⟨hmem, hahead⟩ := rank_head hleader
        have hundominated := (undominated_iff husable hmem hahead).mpr (h leader hleader)
        unfold paretoFront
        rw [rank_head_iff]
        · refine ⟨mem_front.mpr ⟨hmem, hundominated⟩, fun n hn => hahead n (front_subset hn)⟩
        · exact fun a ha b hb => hids a (front_subset ha) b (front_subset hb)
    · exact fun n hn => (mem_paretoFront.mp hn).2
    · intro n hn hout
      rcases front_covers hstrict hn with hin | ⟨m, hm, hdom⟩
      · exact absurd (mem_rank.mpr hin) hout
      · exact ⟨m, mem_rank.mpr hm, hdom⟩
    · exact fun pool' hperm => paretoFront_perm hids hperm

/-- A node with one declared axis that is better the higher it is. -/
def recalling (id : Int) (metric recalled : Rat) : Candidate where
  id := id
  metric := .float metric
  extraMetrics := Dict.set Table.empty "recall" (.float recalled)
  extraMetricsProvenance := Dict.set Table.empty "recall" (.str "declared")
  extraMetricsDirection := Dict.set Table.empty "recall" (.str "max")

theorem keeps_leader_of_trade :
    KeepsLeader "max" [recalling 0 (9 / 10) (1 / 10), recalling 1 (8 / 10) (8 / 10)] := by
  apply (keeps_leader_iff "max"
    ⟨[recalling 0 (9 / 10) (1 / 10), recalling 1 (8 / 10) (8 / 10)], by decide⟩ _ fun n hn => hn).mpr
  intro leader hleader
  obtain ⟨hmem, hahead⟩ := rank_head hleader
  have husable : usable [recalling 0 (9 / 10) (1 / 10), recalling 1 (8 / 10) (8 / 10)] =
      [recalling 0 (9 / 10) (1 / 10), recalling 1 (8 / 10) (8 / 10)] := rfl
  rw [husable] at hmem hahead ⊢
  rcases List.mem_pair.mp hmem with rfl | rfl
  · intro o ho hcond _
    rcases List.mem_pair.mp ho with rfl | rfl
    · exact ⟨rfl, fun k d _ _ => exceeds_self d _⟩
    · rcases hcond with hcond | ⟨d, hd, -⟩
      · exact absurd hcond (by decide +kernel)
      · have hnone : (axesOf (recalling 0 (9 / 10) (1 / 10))).get PRIMARY_OBJECTIVE = none := by decide +kernel
        have haxis := hd _ (List.mem_cons_self ..)
        rw [hnone] at haxis
        cases haxis
  · have hbehind := hahead (recalling 0 (9 / 10) (1 / 10)) (List.mem_cons_self ..)
    exact absurd hbehind (by decide +kernel)

/-- Two nodes tie on the metric: the later one leads the ranking, and the earlier one dominates it. -/
theorem leader_dropped_on_tie :
    ¬ KeepsLeader "max" [recalling 0 (9 / 10) (5 / 10), recalling 1 (9 / 10) (1 / 10)] := by
  intro h
  have husable : usable [recalling 0 (9 / 10) (5 / 10), recalling 1 (9 / 10) (1 / 10)] =
      [recalling 0 (9 / 10) (5 / 10), recalling 1 (9 / 10) (1 / 10)] := rfl
  have hhead : (rankByMetric "max" (usable [recalling 0 (9 / 10) (5 / 10), recalling 1 (9 / 10) (1 / 10)])).head? =
      some (recalling 1 (9 / 10) (1 / 10)) := by
    rw [husable, rank_head_iff]
    · refine ⟨by simp, fun n hn => ?_⟩
      rcases List.mem_pair.mp hn with rfl | rfl
      · decide +kernel
      · decide +kernel
    · intro a ha b hb hid
      rcases List.mem_pair.mp ha with rfl | rfl <;> rcases List.mem_pair.mp hb with rfl | rfl
      · rfl
      · exact absurd hid (by decide)
      · exact absurd hid (by decide)
      · rfl
  have hfront := List.mem_of_mem_head? (h.leader.trans hhead)
  have hdominated := h.undominated _ hfront (recalling 0 (9 / 10) (5 / 10))
    (husable ▸ List.mem_cons_self ..)
  exact absurd hdominated (by decide +kernel)

end Front

end LoopLab.Selection.Pareto
