import LoopLab.Lib.Chase
import Mathlib.Data.List.Perm.Subperm

/-!
# Visiting a forest with its depths

The points to visit wait with their depths; the one taken is done, and its children wait one deeper.
-/

set_option autoImplicit false

namespace LoopLab.Lib

universe u
variable {α : Type u} {up : α → Option α} {ids : List α} {x y : α} {n : Nat}

/-- The chain of the point has `n` points above it. -/
def Level (up : α → Option α) (x : α) (n : Nat) : Prop := ∃ r, anc up n x = some r ∧ up r = none

theorem Level.of_none (h : up x = none) : Level up x 0 := ⟨x, rfl, h⟩

theorem Level.below (h : Level up y n) (hup : up x = some y) : Level up x (n + 1) := by
  obtain ⟨r, hr, hnone⟩ := h
  exact ⟨r, (anc_succ_of hup).trans hr, hnone⟩

theorem Ends.not_onCycle (h : Ends up x) : ¬OnCycle up x := by
  induction h with
  | stop hnone =>
    intro hcycle
    obtain ⟨y, hy, -⟩ := hcycle.parent
    rw [hnone] at hy
    cases hy
  | step hxy _ ih => exact fun hcycle => ih (hcycle.of_parent hxy)

section Children
variable [DecidableEq α]

def childrenIn (up : α → Option α) (ids : List α) (x : α) : List α := ids.filter fun c => up c = some x

theorem mem_childrenIn : y ∈ childrenIn up ids x ↔ y ∈ ids ∧ up y = some x := by
  unfold childrenIn
  rw [List.mem_filter, decide_eq_true_eq]

end Children

structure Visiting (up : α → Option α) (ids : List α) (pending done : List (α × Nat)) : Prop where
  level : ∀ p ∈ pending ++ done, Level up p.1 p.2
  inside : ∀ x ∈ (pending ++ done).map Prod.fst, x ∈ ids
  once : ((pending ++ done).map Prod.fst).Nodup
  above : ∀ x ∈ (pending ++ done).map Prod.fst, ∀ y, up x = some y → y ∈ done.map Prod.fst
  below : ∀ x ∈ ids, (up x = none ∨ ∃ y ∈ done.map Prod.fst, up x = some y) → x ∈ (pending ++ done).map Prod.fst

namespace Visiting

variable {pending pending' done : List (α × Nat)} {rest : List (α × Nat)}

theorem start (hids : ids.Nodup) : Visiting up ids ((ids.filter fun x => up x = none).map fun x => (x, 0)) [] := by
  have hkeys : (((ids.filter fun x => up x = none).map fun x => (x, 0)) ++ ([] : List (α × Nat))).map Prod.fst =
      ids.filter fun x => up x = none := by
    rw [List.append_nil, List.map_map]
    exact List.map_id _
  have hroot {x : α} (h : x ∈ ids.filter fun x => up x = none) : x ∈ ids ∧ up x = none := by
    simpa using h
  refine ⟨?_, ?_, ?_, ?_, ?_⟩
  · intro p hp
    rw [List.append_nil] at hp
    obtain ⟨x, hx, rfl⟩ := List.mem_map.mp hp
    exact .of_none (hroot hx).2
  · rw [hkeys]
    exact fun x hx => (hroot hx).1
  · rw [hkeys]
    exact hids.filter _
  · rw [hkeys]
    intro x hx y hy
    rw [(hroot hx).2] at hy
    cases hy
  · rw [hkeys]
    rintro x hx (hnone | ⟨y, hy, -⟩)
    · exact List.mem_filter.mpr ⟨hx, decide_eq_true hnone⟩
    · cases hy

theorem perm (h : Visiting up ids pending done) (hp : pending.Perm pending') : Visiting up ids pending' done := by
  have hall : (pending' ++ done).Perm (pending ++ done) := hp.symm.append_right done
  have hkeys := hall.map Prod.fst
  refine ⟨?_, ?_, hkeys.nodup_iff.mpr h.once, ?_, ?_⟩
  · exact fun p hin => h.level p (hall.mem_iff.mp hin)
  · exact fun x hin => h.inside x (hkeys.mem_iff.mp hin)
  · exact fun x hin => h.above x (hkeys.mem_iff.mp hin)
  · exact fun x hx hreach => hkeys.mem_iff.mpr (h.below x hx hreach)

theorem length_le (h : Visiting up ids pending done) : pending.length + done.length ≤ ids.length := by
  have hle := (h.once.subperm h.inside).length_le
  rwa [List.length_map, List.length_append] at hle

theorem complete (h : Visiting up ids [] done) (hup : ∀ x ∈ ids, ∀ y, up x = some y → y ∈ ids) (hx : x ∈ ids)
    (hends : Ends up x) : x ∈ done.map Prod.fst := by
  induction hends with
  | stop hnone => exact h.below _ hx (Or.inl hnone)
  | step hxy _ ih => exact h.below _ hx (Or.inr ⟨_, ih (hup _ hx _ hxy), hxy⟩)

variable [DecidableEq α]

theorem visit (hids : ids.Nodup) (h : Visiting up ids ((x, n) :: rest) done) :
    Visiting up ids (rest ++ (childrenIn up ids x).map fun c => (c, n + 1)) (done ++ [(x, n)]) := by
  have hfirst : x ∈ ((x, n) :: rest ++ done).map Prod.fst := List.mem_cons_self
  have hnodup := h.once
  rw [List.cons_append, List.map_cons] at hnodup
  obtain ⟨hnew, hrest⟩ := List.nodup_cons.mp hnodup
  have hfresh {c : α} (hc : c ∈ childrenIn up ids x) : c ∉ ((x, n) :: rest ++ done).map Prod.fst := by
    intro hin
    have hdone := h.above c hin x (mem_childrenIn.mp hc).2
    apply hnew
    rw [List.map_append]
    exact List.mem_append_right _ hdone
  have hkeys : (((rest ++ (childrenIn up ids x).map fun c => (c, n + 1)) ++ (done ++ [(x, n)])).map Prod.fst).Perm
      (childrenIn up ids x ++ ((x, n) :: rest ++ done).map Prod.fst) := by
    simp only [List.map_append, List.map_map, List.map_cons, List.map_nil, List.append_assoc, List.cons_append]
    have hid : (childrenIn up ids x).map (Prod.fst ∘ fun c => (c, n + 1)) = childrenIn up ids x := List.map_id _
    rw [hid]
    refine (List.perm_append_comm_assoc _ _ _).trans (List.Perm.append_left _ ?_)
    rw [← List.append_assoc]
    exact List.perm_append_singleton x _
  have hmem {c : α} : c ∈ ((rest ++ (childrenIn up ids x).map fun c => (c, n + 1)) ++ (done ++ [(x, n)])).map Prod.fst ↔
      c ∈ childrenIn up ids x ∨ c ∈ ((x, n) :: rest ++ done).map Prod.fst := by
    rw [hkeys.mem_iff, List.mem_append]
  have hdone {c : α} : c ∈ (done ++ [(x, n)]).map Prod.fst ↔ c ∈ done.map Prod.fst ∨ c = x := by
    simp
  refine ⟨?_, ?_, ?_, ?_, ?_⟩
  · intro p hp
    rcases List.mem_append.mp hp with hp | hp
    · rcases List.mem_append.mp hp with hp | hp
      · exact h.level p (List.mem_append_left _ (List.mem_cons_of_mem _ hp))
      · obtain ⟨c, hc, rfl⟩ := List.mem_map.mp hp
        exact (h.level (x, n) List.mem_cons_self).below (mem_childrenIn.mp hc).2
    · rcases List.mem_append.mp hp with hp | hp
      · exact h.level p (List.mem_append_right _ hp)
      · rw [List.mem_singleton.mp hp]
        exact h.level (x, n) List.mem_cons_self
  · intro c hc
    rcases hmem.mp hc with hc | hc
    · exact (mem_childrenIn.mp hc).1
    · exact h.inside c hc
  · apply hkeys.nodup_iff.mpr
    apply List.nodup_append.mpr
    refine ⟨hids.filter _, h.once, ?_⟩
    rintro c hc _ hin rfl
    exact hfresh hc hin
  · intro c hc y hy
    rw [hdone]
    rcases hmem.mp hc with hc | hc
    · have heq := (mem_childrenIn.mp hc).2
      rw [hy] at heq
      exact Or.inr (Option.some.inj heq)
    · exact Or.inl (h.above c hc y hy)
  · intro c hc hreach
    rw [hmem]
    rcases hreach with hnone | ⟨y, hy, hup⟩
    · exact Or.inr (h.below c hc (Or.inl hnone))
    · rcases hdone.mp hy with hy | rfl
      · exact Or.inr (h.below c hc (Or.inr ⟨y, hy, hup⟩))
      · exact Or.inl (mem_childrenIn.mpr ⟨hc, hup⟩)

end Visiting

end LoopLab.Lib
