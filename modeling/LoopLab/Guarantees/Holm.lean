import LoopLab.Lib.Front
import LoopLab.Trust.Paired
import Mathlib.Algebra.Order.Field.Rat
import Mathlib.Data.List.Sort
import Mathlib.Tactic.Linarith
import Mathlib.Tactic.Ring

/-!
# Holm's adjustment rejects what the step-down procedure rejects

An adjusted p-value is the running maximum of the raw ones, each times the number of hypotheses not yet passed, and
cut at one.
-/

set_option autoImplicit false

namespace LoopLab.Trust
open Lib

/-- The step-down procedure: from a rank on, the places whose hypotheses it rejects at the level. -/
def stepDown (alpha : Rat) (m : Nat) : Nat → List (Rat × Nat) → List Nat
  | _, [] => []
  | rank, (p, i) :: rest =>
    if (m - rank) * p ≤ alpha then i :: stepDown alpha m (rank + 1) rest else []

/-- An order in which the hypotheses are tested: from the least p-value to the greatest. -/
structure TestOrder (pvalues : List (Option Rat)) (order : List (Rat × Nat)) : Prop where
  perm : order.Perm (hypotheses pvalues)
  sorted : order.Pairwise fun a b => a.1 ≤ b.1

section Procedure
variable {alpha : Rat} {m : Nat} {order : List (Rat × Nat)} {i : Nat}

theorem mem_stepDown {rank : Nat} : i ∈ stepDown alpha m rank order ↔
    ∃ k p, order[k]? = some (p, i) ∧
      ∀ j v, j ≤ k → (order.map Prod.fst)[j]? = some v → (m - (rank + j : Nat)) * v ≤ alpha := by
  induction order generalizing rank with
  | nil => simp [stepDown]
  | cons e rest ih =>
    obtain ⟨p, i'⟩ := e
    rw [stepDown]
    by_cases hp : (m - rank) * p ≤ alpha
    · rw [if_pos hp, List.mem_cons, ih]
      constructor
      · rintro (rfl | ⟨k, p', hk, hall⟩)
        · refine ⟨0, p, rfl, fun j v hj hv => ?_⟩
          obtain rfl := Nat.le_zero.mp hj
          obtain rfl := Option.some.inj hv
          exact hp
        · refine ⟨k + 1, p', hk, fun j v hj hv => ?_⟩
          cases j with
          | zero =>
            obtain rfl := Option.some.inj hv
            exact hp
          | succ j =>
            have h := hall j v (Nat.succ_le_succ_iff.mp hj) hv
            rwa [Nat.add_right_comm] at h
      · rintro ⟨k, p', hk, hall⟩
        cases k with
        | zero =>
          obtain ⟨rfl, rfl⟩ := Prod.mk.inj (Option.some.inj hk)
          exact .inl rfl
        | succ k =>
          refine .inr ⟨k, p', hk, fun j v hj hv => ?_⟩
          rw [Nat.add_right_comm]
          exact hall (j + 1) v (Nat.succ_le_succ hj) hv
    · rw [if_neg hp]
      refine iff_of_false (by simp) ?_
      rintro ⟨k, p', -, hall⟩
      exact hp (hall 0 p (Nat.zero_le k) rfl)

end Procedure

/-! ## The loop -/

def levels (m : Nat) (rank : Nat) : List Rat → List Rat
  | [] => []
  | p :: ps => min 1 ((m - rank) * p) :: levels m (rank + 1) ps

@[simp] theorem length_levels (m rank : Nat) (ps : List Rat) : (levels m rank ps).length = ps.length := by
  induction ps generalizing rank with
  | nil => rfl
  | cons p ps ih => rw [levels, List.length_cons, ih, List.length_cons]

theorem getElem_levels {m rank k : Nat} {ps : List Rat} :
    (levels m rank ps)[k]? = ps[k]?.map fun p : Rat => min 1 (((m : Rat) - (rank + k : Nat)) * p) := by
  induction ps generalizing rank k with
  | nil => simp [levels]
  | cons p ps ih =>
    cases k with
    | zero => simp [levels]
    | succ k =>
      rw [levels, List.getElem?_cons_succ, ih, List.getElem?_cons_succ, Nat.add_right_comm, Nat.add_assoc]

theorem adjustFrom_eq (m rank : Nat) (b : Rat) (order : List (Rat × Nat)) :
    adjustFrom m rank b order =
      (order.map Prod.snd).zip (running b (levels m rank (order.map Prod.fst))) := by
  induction order generalizing rank b with
  | nil => rfl
  | cons e order ih =>
    simp only [adjustFrom, ih, List.map_cons, levels, running, List.zip_cons_cons]

section Writes
variable {es : List (Nat × Rat)} {out : List (Option Rat)}

@[simp] theorem length_foldl_set :
    (es.foldl (fun out e => out.set e.1 (some e.2)) out).length = out.length := by
  induction es generalizing out with
  | nil => rfl
  | cons e es ih => rw [List.foldl_cons, ih, List.length_set]

theorem getElem_foldl_set_of_not_mem {i : Nat} (hi : i ∉ es.map Prod.fst) :
    (es.foldl (fun out e => out.set e.1 (some e.2)) out)[i]? = out[i]? := by
  induction es generalizing out with
  | nil => rfl
  | cons e es ih =>
    rw [List.map_cons, List.mem_cons, not_or] at hi
    rw [List.foldl_cons, ih hi.2, List.getElem?_set_ne (Ne.symm hi.1)]

theorem getElem_foldl_set (hnodup : (es.map Prod.fst).Nodup) {e : Nat × Rat} (he : e ∈ es)
    (hlt : e.1 < out.length) :
    (es.foldl (fun out e => out.set e.1 (some e.2)) out)[e.1]? = some (some e.2) := by
  induction es generalizing out with
  | nil => cases he
  | cons f es ih =>
    rw [List.map_cons, List.nodup_cons] at hnodup
    rw [List.foldl_cons]
    rcases List.mem_cons.mp he with rfl | he
    · rw [getElem_foldl_set_of_not_mem hnodup.1, List.getElem?_set_self hlt]
    · exact ih hnodup.2 he (by rwa [List.length_set])

end Writes

section Hypotheses
variable {pvalues : List (Option Rat)} {p : Rat} {i : Nat}

theorem mem_hypotheses : (p, i) ∈ hypotheses pvalues ↔ pvalues[i]? = some (some p) := by
  unfold hypotheses
  rw [List.mem_filterMap]
  constructor
  · rintro ⟨⟨e, j⟩, he, heq⟩
    obtain ⟨v, rfl, hv⟩ := Option.map_eq_some_iff.mp heq
    obtain ⟨rfl, rfl⟩ := Prod.mk.inj hv
    exact (List.mem_zipIdx_iff_getElem?.mp he)
  · intro h
    exact ⟨(some p, i), List.mem_zipIdx_iff_getElem?.mpr h, rfl⟩

theorem nodup_places : ((hypotheses pvalues).map Prod.snd).Nodup := by
  have hplaces : (pvalues.zipIdx.map Prod.snd).Nodup := by
    rw [List.zipIdx_map_snd]
    exact List.nodup_range'
  unfold hypotheses
  apply List.pairwise_map.mpr
  refine (List.pairwise_map.mp hplaces).filterMap _ ?_
  intro e e' hne b hb b' hb'
  obtain ⟨v, -, rfl⟩ := Option.map_eq_some_iff.mp hb
  obtain ⟨v', -, rfl⟩ := Option.map_eq_some_iff.mp hb'
  exact hne

theorem ranked_order : TestOrder pvalues (ranked pvalues) where
  perm := List.mergeSort_perm _ _
  sorted := by
    have hsorted : (ranked pvalues).Pairwise fun a b => decide (a.1 ≤ b.1) = true :=
      List.pairwise_mergeSort
        (fun a b c hab hbc => decide_eq_true ((of_decide_eq_true hab).trans (of_decide_eq_true hbc)))
        (fun a b => by simpa using le_total a.1 b.1) _
    exact hsorted.imp of_decide_eq_true

end Hypotheses

section Adjusted
variable {s : List Rat} {p q a : Rat}

/-- Every value is a probability. -/
def Probabilities (pvalues : List (Option Rat)) : Prop := ∀ p, some p ∈ pvalues → 0 ≤ p ∧ p ≤ 1

/-- The bound is beyond what the values up to `p` give in their order. -/
def Beyond (s : List Rat) (p a : Rat) : Prop :=
  0 ≤ a ∧ ∀ (j : Nat) v, s[j]? = some v → v ≤ p → min 1 ((s.length - j) * v) ≤ a

theorem forall_upto_iff (hsorted : s.Pairwise (· ≤ ·)) (hpos : ∀ v ∈ s, 0 ≤ v) {k : Nat} (hk : s[k]? = some p)
    {P : Rat → Prop} (hP : ∀ x y, x ≤ y → P y → P x) :
    (∀ (j : Nat) v, s[j]? = some v → v ≤ p → P ((s.length - j) * v)) ↔
      ∀ (j : Nat) v, j ≤ k → s[j]? = some v → P ((s.length - j) * v) := by
  have hle : ∀ {j k : Nat} {v w : Rat}, j ≤ k → s[j]? = some v → s[k]? = some w → v ≤ w := by
    intro j k v w hjk hv hw
    obtain ⟨hj, rfl⟩ := List.getElem?_eq_some_iff.mp hv
    obtain ⟨hk, rfl⟩ := List.getElem?_eq_some_iff.mp hw
    rcases Nat.lt_or_eq_of_le hjk with hlt | rfl
    · exact List.pairwise_iff_getElem.mp hsorted j k hj hk hlt
    · exact le_refl _
  constructor
  · intro h j v hj hv
    exact h j v hv (hle hj hv hk)
  · intro h j v hv hvp
    by_cases hj : j ≤ k
    · exact h j v hj hv
    · -- a tie behind the rank
      have heq : v = p := le_antisymm hvp (hle (Nat.le_of_not_le hj) hk hv)
      refine hP _ _ ?_ (h k p (Nat.le_refl k) hk)
      rw [heq]
      have hkj : (k : Rat) ≤ j := by exact_mod_cast Nat.le_of_not_le hj
      exact mul_le_mul_of_nonneg_right (by linarith) (hpos p (List.mem_of_getElem? hk))

theorem values_unique {pvalues : List (Option Rat)} {order order' : List (Rat × Nat)}
    (h : TestOrder pvalues order) (h' : TestOrder pvalues order') :
    order.map Prod.fst = order'.map Prod.fst := by
  have hperm : (order.map Prod.fst).Perm (order'.map Prod.fst) := (h.perm.trans h'.perm.symm).map _
  exact hperm.eq_of_pairwise (fun _ _ _ _ => le_antisymm) (List.pairwise_map.mpr h.sorted)
    (List.pairwise_map.mpr h'.sorted)

def values (pvalues : List (Option Rat)) : List Rat := (ranked pvalues).map Prod.fst

theorem values_sorted (pvalues : List (Option Rat)) : (values pvalues).Pairwise (· ≤ ·) :=
  List.pairwise_map.mpr ranked_order.sorted

theorem mem_values {pvalues : List (Option Rat)} {v : Rat} (hv : v ∈ values pvalues) : some v ∈ pvalues := by
  obtain ⟨⟨v, i⟩, he, rfl⟩ := List.mem_map.mp hv
  exact List.mem_of_getElem? (mem_hypotheses.mp (ranked_order.perm.mem_iff.mp he))

theorem map_fst_adjustFrom (m rank : Nat) (b : Rat) (order : List (Rat × Nat)) :
    (adjustFrom m rank b order).map Prod.fst = order.map Prod.snd := by
  induction order generalizing rank b with
  | nil => rfl
  | cons e order ih => rw [adjustFrom, List.map_cons, List.map_cons, ih]

theorem exists_adjusted {pvalues : List (Option Rat)} {k i : Nat} (hk : (ranked pvalues)[k]? = some (p, i)) :
    ∃ q, (i, q) ∈ adjustFrom (ranked pvalues).length 0 0 (ranked pvalues) ∧
      (running 0 (levels (ranked pvalues).length 0 (values pvalues)))[k]? = some q := by
  have hlt : k < (running 0 (levels (ranked pvalues).length 0 (values pvalues))).length := by
    rw [length_running, length_levels]
    unfold values
    rw [List.length_map]
    exact (List.getElem?_eq_some_iff.mp hk).1
  refine ⟨_, ?_, List.getElem?_eq_getElem hlt⟩
  rw [adjustFrom_eq]
  apply List.mem_of_getElem? (i := k)
  rw [List.getElem?_zip_eq_some]
  exact ⟨by rw [List.getElem?_map, hk]; rfl, List.getElem?_eq_getElem hlt⟩

theorem holm_spec {pvalues : List (Option Rat)} (hprob : Probabilities pvalues) {i : Nat}
    (hi : pvalues[i]? = some (some p)) :
    ∃ q, (holm pvalues)[i]? = some (some q) ∧ ∀ a, q ≤ a ↔ Beyond (values pvalues) p a := by
  have hmem : (p, i) ∈ ranked pvalues := ranked_order.perm.mem_iff.mpr (mem_hypotheses.mpr hi)
  obtain ⟨k, hk⟩ := List.mem_iff_getElem?.mp hmem
  have hvalue : (values pvalues)[k]? = some p := by
    unfold values
    rw [List.getElem?_map, hk]
    rfl
  obtain ⟨q, hq, hlevel⟩ := exists_adjusted hk
  refine ⟨q, ?_, fun a => ?_⟩
  · unfold holm
    apply getElem_foldl_set (e := (i, q))
    · rw [map_fst_adjustFrom]
      exact (ranked_order.perm.map _).nodup_iff.mpr nodup_places
    · exact hq
    · rw [List.length_replicate]
      exact (List.getElem?_eq_some_iff.mp hi).1
  · rw [running_le_iff hlevel]
    refine and_congr_right fun _ => ?_
    have hupto := forall_upto_iff (values_sorted pvalues) (fun v hv => (hprob v (mem_values hv)).1) hvalue
      (P := fun x => min 1 x ≤ a) fun x y hxy hy => (min_le_min_left 1 hxy).trans hy
    rw [hupto]
    have hlength : (ranked pvalues).length = (values pvalues).length := (List.length_map _).symm
    simp only [getElem_levels, Nat.zero_add, hlength]
    constructor
    · intro h j v hj hv
      exact h j _ hj (by rw [hv]; rfl)
    · intro h j x hj hx
      obtain ⟨v, hv, rfl⟩ := Option.map_eq_some_iff.mp hx
      exact h j v hj hv

theorem beyond_iff_of_lt {k : Nat} (hpos : ∀ v ∈ s, 0 ≤ v) (hk : s[k]? = some p) (ha : a < 1) :
    Beyond s p a ↔ ∀ (j : Nat) v, s[j]? = some v → v ≤ p → (s.length - j) * v ≤ a := by
  have hmin : ∀ x : Rat, min 1 x ≤ a ↔ x ≤ a := fun x => by
    rw [min_le_iff]
    exact or_iff_right (not_le.mpr ha)
  unfold Beyond
  simp only [hmin]
  refine and_iff_right_of_imp fun h => ?_
  have hlt : (k : Rat) ≤ s.length := by exact_mod_cast (List.getElem?_eq_some_iff.mp hk).1.le
  exact (mul_nonneg (by linarith) (hpos p (List.mem_of_getElem? hk))).trans (h k p hk (le_refl p))

theorem beyond_mono {p' : Rat} (hp : p ≤ p') (h : Beyond s p' a) : Beyond s p a :=
  ⟨h.1, fun j v hj hv => h.2 j v hj (hv.trans hp)⟩

theorem mem_stepDown_iff {pvalues : List (Option Rat)} (hprob : Probabilities pvalues) {order : List (Rat × Nat)}
    (horder : TestOrder pvalues order) {i : Nat} (hi : pvalues[i]? = some (some p)) :
    i ∈ stepDown a order.length 0 order ↔
      ∀ (j : Nat) v, (values pvalues)[j]? = some v → v ≤ p → ((values pvalues).length - j) * v ≤ a := by
  have hvalues : order.map Prod.fst = values pvalues := values_unique horder ranked_order
  have hlength : order.length = (values pvalues).length := by rw [← hvalues, List.length_map]
  have hupto : ∀ {k : Nat}, (values pvalues)[k]? = some p →
      ((∀ (j : Nat) v, (values pvalues)[j]? = some v → v ≤ p → ((values pvalues).length - j) * v ≤ a) ↔
        ∀ (j : Nat) v, j ≤ k → (values pvalues)[j]? = some v → ((values pvalues).length - j) * v ≤ a) :=
    fun hk => forall_upto_iff (values_sorted pvalues) (fun v hv => (hprob v (mem_values hv)).1) hk
      (P := fun x => x ≤ a) fun x y hxy hy => hxy.trans hy
  rw [mem_stepDown, hvalues, hlength]
  simp only [Nat.zero_add]
  constructor
  · rintro ⟨k, p', hk, hall⟩
    have hp : pvalues[i]? = some (some p') :=
      mem_hypotheses.mp (horder.perm.mem_iff.mp (List.mem_of_getElem? hk))
    obtain rfl := Option.some.inj (Option.some.inj (hi.symm.trans hp))
    have hvalue : (values pvalues)[k]? = some p := by rw [← hvalues, List.getElem?_map, hk]; rfl
    exact (hupto hvalue).mpr hall
  · intro h
    obtain ⟨k, hk⟩ := List.mem_iff_getElem?.mp (horder.perm.mem_iff.mpr (mem_hypotheses.mpr hi))
    have hvalue : (values pvalues)[k]? = some p := by rw [← hvalues, List.getElem?_map, hk]; rfl
    exact ⟨k, p, hk, (hupto hvalue).mp h⟩

end Adjusted

/-! ## The adjustment -/

section Statement
variable {pvalues : List (Option Rat)} {p q : Rat} {i : Nat}

theorem length_holm (pvalues : List (Option Rat)) : (holm pvalues).length = pvalues.length := by
  unfold holm
  rw [length_foldl_set, List.length_replicate]

theorem holm_none (hi : pvalues[i]? = some none) : (holm pvalues)[i]? = some none := by
  unfold holm
  rw [getElem_foldl_set_of_not_mem]
  · rw [List.getElem?_replicate, if_pos (List.getElem?_eq_some_iff.mp hi).1]
  · rw [map_fst_adjustFrom]
    intro hmem
    obtain ⟨⟨p, i'⟩, he, rfl⟩ := List.mem_map.mp hmem
    have hp := mem_hypotheses.mp (ranked_order.perm.mem_iff.mp he)
    cases hi.symm.trans hp

theorem entry_of_adjusted (hq : (holm pvalues)[i]? = some (some q)) : ∃ p, pvalues[i]? = some (some p) := by
  have hlt : i < pvalues.length := by
    rw [← length_holm pvalues]
    exact (List.getElem?_eq_some_iff.mp hq).1
  have hi : pvalues[i]? = some pvalues[i] := List.getElem?_eq_getElem hlt
  cases hvalue : pvalues[i] with
  | none =>
    rw [hvalue] at hi
    cases (holm_none hi).symm.trans hq
  | some p => exact ⟨p, by rw [hi, hvalue]⟩

theorem mem_values_of_entry (hi : pvalues[i]? = some (some p)) : p ∈ values pvalues :=
  List.mem_map.mpr ⟨(p, i), ranked_order.perm.mem_iff.mpr (mem_hypotheses.mpr hi), rfl⟩

theorem beyond_bounds (hprob : Probabilities pvalues) (hi : pvalues[i]? = some (some p))
    (hq : ∀ a, q ≤ a ↔ Beyond (values pvalues) p a) :
    p ≤ q ∧ q ≤ min 1 ((hypotheses pvalues).length * p) := by
  obtain ⟨hpos, hone⟩ := hprob p (List.mem_of_getElem? hi)
  have hlength : (hypotheses pvalues).length = (values pvalues).length := by
    unfold values
    rw [List.length_map, ranked_order.perm.length_eq]
  constructor
  · obtain ⟨k, hk⟩ := List.mem_iff_getElem?.mp (mem_values_of_entry hi)
    refine le_trans (le_min hone ?_) (((hq q).mp (le_refl q)).2 k p hk (le_refl p))
    have hlt : ((k + 1 : Nat) : Rat) ≤ (values pvalues).length := by
      exact_mod_cast (List.getElem?_eq_some_iff.mp hk).1
    rw [Nat.cast_add, Nat.cast_one] at hlt
    nlinarith
  · rw [hlength]
    refine (hq _).mpr ⟨le_min zero_le_one (mul_nonneg (Nat.cast_nonneg _) hpos), fun j v hj hv => ?_⟩
    have hvpos := (hprob v (mem_values (List.mem_of_getElem? hj))).1
    have hj0 : (0 : Rat) ≤ j := Nat.cast_nonneg j
    apply min_le_min_left
    calc ((values pvalues).length - j) * v ≤ (values pvalues).length * v :=
          mul_le_mul_of_nonneg_right (by linarith) hvpos
      _ ≤ (values pvalues).length * p := mul_le_mul_of_nonneg_left hv (Nat.cast_nonneg _)

theorem map_fst_hypotheses (pvalues : List (Option Rat)) :
    (hypotheses pvalues).map Prod.fst = pvalues.filterMap id := by
  unfold hypotheses
  conv_rhs => rw [← List.zipIdx_map_fst 0 pvalues]
  rw [List.map_filterMap, List.filterMap_map]
  apply List.filterMap_congr
  rintro ⟨_ | p, i⟩ - <;> rfl

theorem values_congr {pvalues' : List (Option Rat)} (h : pvalues.Perm pvalues') :
    values pvalues = values pvalues' := by
  have hperm : (values pvalues).Perm (values pvalues') := by
    unfold values
    have hfst := (h.filterMap id).trans (.of_eq (map_fst_hypotheses pvalues').symm)
    rw [← map_fst_hypotheses] at hfst
    exact ((ranked_order.perm.map _).trans hfst).trans (ranked_order.perm.map _).symm
  exact hperm.eq_of_pairwise (fun _ _ _ _ => le_antisymm) (values_sorted _) (values_sorted _)

theorem map_getD_range (xs : List (Option Rat)) : (List.range xs.length).map (fun i => xs[i]?.getD none) = xs := by
  apply List.ext_getElem?
  intro i
  rw [List.getElem?_map]
  by_cases hi : i < xs.length
  · rw [List.getElem?_range hi]
    simp [hi]
  · simp [hi]

theorem adjusted_congr {pvalues' : List (Option Rat)} (hprob : Probabilities pvalues)
    (hperm : pvalues.Perm pvalues') {j : Nat} (hi : pvalues[i]? = some (some p))
    (hj : pvalues'[j]? = some (some p)) : (holm pvalues)[i]? = (holm pvalues')[j]? := by
  have hprob' : Probabilities pvalues' := fun v hv => hprob v (hperm.mem_iff.mpr hv)
  obtain ⟨q, hq, hbeyond⟩ := holm_spec hprob hi
  obtain ⟨q', hq', hbeyond'⟩ := holm_spec hprob' hj
  rw [← values_congr hperm] at hbeyond'
  have heq : q = q' := le_antisymm ((hbeyond q').mpr ((hbeyond' q').mp (le_refl q')))
    ((hbeyond' q).mpr ((hbeyond q).mp (le_refl q)))
  rw [hq, hq', heq]

theorem holm_perm (hprob : Probabilities pvalues) {places : List Nat}
    (hplaces : places.Perm (List.range pvalues.length)) :
    holm (places.map fun i => pvalues[i]?.getD none) = places.map fun i => (holm pvalues)[i]?.getD none := by
  have hperm : (places.map fun i => pvalues[i]?.getD none).Perm pvalues :=
    (hplaces.map _).trans (.of_eq (map_getD_range pvalues))
  apply List.ext_getElem?
  intro k
  cases hk : places[k]? with
  | none =>
    have hlength := List.getElem?_eq_none_iff.mp hk
    rw [List.getElem?_eq_none (by rw [length_holm, List.length_map]; exact hlength),
      List.getElem?_eq_none (by rw [List.length_map]; exact hlength)]
  | some i =>
    have hi : i < pvalues.length := List.mem_range.mp (hplaces.mem_iff.mp (List.mem_of_getElem? hk))
    have hentry : (places.map fun i => pvalues[i]?.getD none)[k]? = some (pvalues[i]?.getD none) := by
      rw [List.getElem?_map, hk]
      rfl
    have hadjusted : (holm pvalues)[i]? = some ((holm pvalues)[i]?.getD none) := by
      have hlt : i < (holm pvalues).length := by rwa [length_holm]
      rw [List.getElem?_eq_getElem hlt]
      rfl
    rw [List.getElem?_map, hk, Option.map_some, ← hadjusted]
    have hown : pvalues[i]? = some pvalues[i] := List.getElem?_eq_getElem hi
    rw [hown, Option.getD_some] at hentry
    cases hvalue : pvalues[i] with
    | none =>
      rw [hvalue] at hentry hown
      rw [holm_none hentry, holm_none hown]
    | some p =>
      rw [hvalue] at hentry hown
      exact (adjusted_congr hprob hperm.symm hown hentry).symm

end Statement

end LoopLab.Trust
