import Mathlib.Data.List.Basic
import Mathlib.Data.List.Count
import Mathlib.Data.List.Nodup
import Mathlib.Data.List.Perm.Basic
import Mathlib.Data.List.Range

/-!
# Positions closed out of order

A window over the positions of a growing queue: everything below a cursor is closed, and so are a few positions
ahead of it.
-/

set_option autoImplicit false

namespace LoopLab.Lib

universe u
variable {α : Type u}

/-- Closed positions: all below `done`, and those `ahead`. -/
structure Window (α : Type u) where
  done : Nat := 0
  ahead : List Nat := []
  outcomes : List α := []

namespace Window

def IsClosed (w : Window α) (p : Nat) : Prop := p < w.done ∨ p ∈ w.ahead

instance (w : Window α) (p : Nat) : Decidable (w.IsClosed p) :=
  inferInstanceAs (Decidable (p < w.done ∨ p ∈ w.ahead))

def slide : Nat → Nat → List Nat → Nat × List Nat
  | 0, done, ahead => (done, ahead)
  | fuel + 1, done, ahead =>
    if done ∈ ahead then slide fuel (done + 1) (ahead.erase done) else (done, ahead)

/-- How many closed positions stand before `p`, where `p` is not below the cursor. -/
def rank (w : Window α) (p : Nat) : Nat := w.done + w.ahead.countP (· < p)

def close (w : Window α) (p : Nat) (a : α) : Window α :=
  let outcomes := w.outcomes.take (w.rank p) ++ a :: w.outcomes.drop (w.rank p)
  if p = w.done then
    let moved := slide w.ahead.length (w.done + 1) w.ahead
    { done := moved.1, ahead := moved.2, outcomes := outcomes }
  else { done := w.done, ahead := w.ahead ++ [p], outcomes := outcomes }

def ranked (closes : List (Nat × α)) : List (Nat × α) :=
  closes.mergeSort fun a b => decide (a.1 ≤ b.1)

structure Holds (w : Window α) (closes : List (Nat × α)) : Prop where
  once : (closes.map Prod.fst).Nodup
  closed : ∀ p, w.IsClosed p ↔ p ∈ closes.map Prod.fst
  distinct : w.ahead.Nodup
  beyond : ∀ p ∈ w.ahead, w.done < p
  outcomes : w.outcomes = (ranked closes).map Prod.snd

/-! ## Sorted lists of positions -/

theorem ranked_perm (closes : List (Nat × α)) : (ranked closes).Perm closes :=
  List.mergeSort_perm _ _

theorem ranked_sorted {closes : List (Nat × α)} (h : (closes.map Prod.fst).Nodup) :
    (ranked closes).Pairwise fun a b => a.1 < b.1 := by
  have hle : (ranked closes).Pairwise fun a b => decide (a.1 ≤ b.1) = true := by
    apply List.pairwise_mergeSort
    · intro a b c hab hbc
      simp only [decide_eq_true_eq] at hab hbc ⊢
      omega
    · intro a b
      simp only [Bool.or_eq_true, decide_eq_true_eq]
      omega
  have hne : (ranked closes).Pairwise fun a b => a.1 ≠ b.1 := by
    have hnodup : ((ranked closes).map Prod.fst).Nodup := ((ranked_perm closes).map _).nodup_iff.mpr h
    exact List.pairwise_map.mp hnodup
  apply (hle.and hne).imp
  intro a b ⟨hle, hne⟩
  simp only [decide_eq_true_eq] at hle
  omega

theorem ranked_eq_of_perm {closes rows : List (Nat × α)} (hperm : rows.Perm closes)
    (hs : rows.Pairwise fun a b => a.1 < b.1) : ranked closes = rows := by
  have hnodup : (closes.map Prod.fst).Nodup := by
    apply (hperm.map _).nodup_iff.mp
    apply List.pairwise_map.mpr
    apply hs.imp
    intro a b hab
    omega
  apply ((ranked_perm closes).trans hperm.symm).eq_of_pairwise ?_ (ranked_sorted hnodup) hs
  intro a b _ _ hab hba
  omega

theorem take_of_sorted {rows : List (Nat × α)} (hs : rows.Pairwise fun a b => a.1 < b.1) (p : Nat) :
    rows.take (rows.countP (·.1 < p)) = rows.filter (·.1 < p) ∧
      rows.drop (rows.countP (·.1 < p)) = rows.filter fun r => !decide (r.1 < p) := by
  induction rows with
  | nil => exact ⟨rfl, rfl⟩
  | cons row rows ih =>
    obtain ⟨hrow, hrest⟩ := List.pairwise_cons.mp hs
    by_cases hlt : row.1 < p
    · obtain ⟨ht, hd⟩ := ih hrest
      simp only [List.countP_cons, List.filter_cons, hlt, decide_true, if_true, List.take_succ_cons,
        List.drop_succ_cons, ht, hd]
      constructor
      · trivial
      · rfl
    · have hall : ∀ r ∈ row :: rows, ¬ r.1 < p := by
        intro r hr
        rcases List.mem_cons.mp hr with rfl | hr
        · exact hlt
        · have := hrow r hr
          omega
      have hzero : (row :: rows).countP (·.1 < p) = 0 := by
        apply List.countP_eq_zero.mpr
        intro r hr
        simpa using hall r hr
      have hnone : (row :: rows).filter (·.1 < p) = [] := by
        apply List.filter_eq_nil_iff.mpr
        intro r hr
        simpa using hall r hr
      have hevery : ((row :: rows).filter fun r => !decide (r.1 < p)) = row :: rows := by
        apply List.filter_eq_self.mpr
        intro r hr
        simpa using hall r hr
      rw [hzero, hnone, hevery]
      exact ⟨rfl, rfl⟩

/-! ## The cursor -/

theorem slide_spec {fuel done : Nat} {ahead : List Nat} (hfuel : ahead.length ≤ fuel)
    (hnodup : ahead.Nodup) (hle : ∀ p ∈ ahead, done ≤ p) :
    (slide fuel done ahead).2.Nodup ∧ done ≤ (slide fuel done ahead).1 ∧
      (∀ p ∈ (slide fuel done ahead).2, (slide fuel done ahead).1 < p) ∧
      ∀ p, (p < (slide fuel done ahead).1 ∨ p ∈ (slide fuel done ahead).2) ↔
        (p < done ∨ p ∈ ahead) := by
  induction fuel generalizing done ahead with
  | zero =>
    have : ahead = [] := List.length_eq_zero_iff.mp (Nat.le_zero.mp hfuel)
    subst this
    simp [slide]
  | succ fuel ih =>
    unfold slide
    split
    · rename_i hmem
      have hlen : (ahead.erase done).length ≤ fuel := by
        rw [List.length_erase_of_mem hmem]
        omega
      have hrest : ∀ p ∈ ahead.erase done, done + 1 ≤ p := by
        intro p hp
        obtain ⟨hne, hp⟩ := hnodup.mem_erase_iff.mp hp
        have := hle p hp
        omega
      obtain ⟨hn, hd, hb, hc⟩ := ih hlen (hnodup.erase done) hrest
      refine ⟨hn, by omega, hb, ?_⟩
      intro p
      rw [hc p, hnodup.mem_erase_iff]
      constructor
      · rintro (hp | ⟨_, hp⟩)
        · by_cases hpd : p = done
          · exact .inr (hpd ▸ hmem)
          · exact .inl (by omega)
        · exact .inr hp
      · rintro (hp | hp)
        · exact .inl (by omega)
        · by_cases hpd : p = done
          · exact .inl (by omega)
          · exact .inr ⟨hpd, hp⟩
    · rename_i hmem
      refine ⟨hnodup, Nat.le_refl _, ?_, fun p => Iff.rfl⟩
      intro p hp
      have := hle p hp
      have : p ≠ done := fun h => hmem (h ▸ hp)
      omega

namespace Holds
variable {w : Window α} {closes : List (Nat × α)}

theorem empty : Holds ({} : Window α) [] where
  once := .nil
  closed p := by simp [IsClosed]
  distinct := .nil
  beyond := by simp
  outcomes := by simp [ranked]

theorem positions_perm (h : w.Holds closes) :
    (closes.map Prod.fst).Perm (List.range w.done ++ w.ahead) := by
  apply (List.perm_ext_iff_of_nodup h.once ?_).mpr
  · intro q
    rw [← h.closed q]
    simp [IsClosed]
  · apply List.nodup_append.mpr
    refine ⟨List.nodup_range, h.distinct, ?_⟩
    intro q hq r hr
    have := List.mem_range.mp hq
    have := h.beyond r hr
    omega

theorem count_before (h : w.Holds closes) {p : Nat} (hp : w.done ≤ p) :
    closes.countP (·.1 < p) = w.rank p := by
  have hcount := h.positions_perm.countP_eq (· < p)
  rw [List.countP_map, List.countP_append] at hcount
  have hrange : (List.range w.done).countP (· < p) = w.done := by
    have : ∀ q ∈ List.range w.done, decide (q < p) = true := by
      intro q hq
      have := List.mem_range.mp hq
      simpa using by omega
    rw [List.countP_eq_length.mpr this, List.length_range]
  rw [hrange] at hcount
  exact hcount

theorem length_outcomes (h : w.Holds closes) : w.done + w.ahead.length = w.outcomes.length := by
  have hlen := h.positions_perm.length_eq
  rw [List.length_map, List.length_append, List.length_range] at hlen
  rw [h.outcomes, List.length_map, (ranked_perm closes).length_eq, hlen]

theorem close (h : w.Holds closes) {p : Nat} (a : α) (hp : ¬ w.IsClosed p) :
    (w.close p a).Holds (closes ++ [(p, a)]) := by
  have hle : w.done ≤ p := by
    by_contra hlt
    exact hp (.inl (by omega))
  have hahead : p ∉ w.ahead := fun hin => hp (.inr hin)
  have hfresh : p ∉ closes.map Prod.fst := fun hin => hp ((h.closed p).mpr hin)
  have hsorted := ranked_sorted h.once
  have hrank : (ranked closes).countP (·.1 < p) = w.rank p := by
    rw [(ranked_perm closes).countP_eq, h.count_before hle]
  obtain ⟨htake, hdrop⟩ := take_of_sorted hsorted p
  rw [hrank] at htake hdrop
  have houtcomes : w.outcomes.take (w.rank p) ++ a :: w.outcomes.drop (w.rank p) =
      (ranked (closes ++ [(p, a)])).map Prod.snd := by
    have hrows : ranked (closes ++ [(p, a)]) =
        (ranked closes).take (w.rank p) ++ (p, a) :: (ranked closes).drop (w.rank p) := by
      apply ranked_eq_of_perm
      · apply (List.perm_middle).trans
        rw [List.take_append_drop]
        exact ((ranked_perm closes).cons _).trans (List.perm_append_singleton _ _).symm
      · rw [htake, hdrop]
        apply List.pairwise_append.mpr
        refine ⟨hsorted.filter _, List.pairwise_cons.mpr ⟨?_, hsorted.filter _⟩, ?_⟩
        · intro row hrow
          obtain ⟨hmem, hge⟩ := List.mem_filter.mp hrow
          have hin : row.1 ∈ closes.map Prod.fst :=
            List.mem_map_of_mem ((ranked_perm closes).mem_iff.mp hmem)
          have hne : row.1 ≠ p := by
            intro heq
            rw [heq] at hin
            exact hfresh hin
          have hge : ¬ row.1 < p := by simpa using hge
          exact Nat.lt_of_le_of_ne (by omega) (Ne.symm hne)
        · intro row hrow row' hrow'
          have hlt : row.1 < p := by simpa using (List.mem_filter.mp hrow).2
          rcases List.mem_cons.mp hrow' with rfl | hrow'
          · exact hlt
          · have hge : ¬ row'.1 < p := by simpa using (List.mem_filter.mp hrow').2
            omega
    rw [hrows, h.outcomes]
    simp
  have honce : ((closes ++ [(p, a)]).map Prod.fst).Nodup := by
    rw [List.map_append, List.map_singleton]
    apply List.nodup_append.mpr
    refine ⟨h.once, List.nodup_singleton p, ?_⟩
    intro q hq r hr heq
    rw [heq, List.mem_singleton.mp hr] at hq
    exact hfresh hq
  have hclosed : ∀ q, q ∈ (closes ++ [(p, a)]).map Prod.fst ↔ w.IsClosed q ∨ q = p := by
    intro q
    rw [h.closed q]
    simp
  unfold Window.close
  split
  · rename_i hpd
    have hbeyond : ∀ q ∈ w.ahead, w.done + 1 ≤ q := h.beyond
    obtain ⟨hn, _, hb, hc⟩ := slide_spec (Nat.le_refl _) h.distinct hbeyond
    refine ⟨honce, ?_, hn, hb, houtcomes⟩
    intro q
    rw [hclosed q]
    refine (hc q).trans ?_
    subst hpd
    unfold IsClosed
    constructor
    · rintro (hlt | hin)
      · by_cases heq : q = w.done
        · exact .inr heq
        · exact .inl (.inl (by omega))
      · exact .inl (.inr hin)
    · rintro ((hlt | hin) | heq)
      · exact .inl (by omega)
      · exact .inr hin
      · exact .inl (by omega)
  · rename_i hpd
    refine ⟨honce, ?_, ?_, ?_, houtcomes⟩
    · intro q
      rw [hclosed q]
      unfold IsClosed
      simp only [List.mem_append, List.mem_singleton]
      tauto
    · apply List.nodup_append.mpr
      refine ⟨h.distinct, List.nodup_singleton p, ?_⟩
      intro q hq r hr heq
      rw [heq, List.mem_singleton.mp hr] at hq
      exact hahead hq
    · intro q hq
      rcases List.mem_append.mp hq with hq | hq
      · exact h.beyond q hq
      · have := List.mem_singleton.mp hq
        show w.done < q
        omega

end Holds

end Window

end LoopLab.Lib
