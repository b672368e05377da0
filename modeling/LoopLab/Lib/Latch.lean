import Mathlib.Data.List.Induction

/-!
# A latch

A row may set the latch, and a later row may release what was set last. The latch holds at the end of
a run where its last setter is not released.
-/

set_option autoImplicit false

namespace LoopLab.Lib

universe u

structure Latch (α : Type u) where
  sets : α → Bool
  releases : α → α → Bool

namespace Latch
variable {α : Type u} (l : Latch α)

def step (held : Option α) (x : α) : Option α :=
  if l.sets x then some x else held.filter (!l.releases · x)

def held (xs : List α) : Option α := xs.foldl l.step none

def LastSet (xs : List α) (p : α) (after : List α) : Prop :=
  ∃ before, xs = before ++ p :: after ∧ l.sets p = true ∧ ∀ x ∈ after, l.sets x = false

def AtRest (xs : List α) : Prop :=
  (∀ x ∈ xs, l.sets x = false) ∨ ∃ p after, l.LastSet xs p after ∧ ∃ x ∈ after, l.releases p x = true

theorem held_snoc (xs : List α) (x : α) : l.held (xs ++ [x]) = l.step (l.held xs) x := by
  unfold held
  rw [List.foldl_append]
  rfl

variable {l}

theorem LastSet.snoc {xs after : List α} {p x : α} (h : l.LastSet xs p after) (hx : l.sets x = false) :
    l.LastSet (xs ++ [x]) p (after ++ [x]) := by
  obtain ⟨before, rfl, hp, hafter⟩ := h
  refine ⟨before, by simp, hp, ?_⟩
  exact List.forall_mem_append.mpr ⟨hafter, List.forall_mem_singleton.mpr hx⟩

theorem held_some {xs : List α} {p : α} (h : l.held xs = some p) :
    ∃ after, l.LastSet xs p after ∧ ∀ x ∈ after, l.releases p x = false := by
  induction xs using List.reverseRecOn generalizing p with
  | nil => cases h
  | append_singleton xs x ih =>
    rw [held_snoc] at h
    unfold step at h
    split at h
    · rename_i hset
      cases h
      exact ⟨[], ⟨xs, rfl, hset, List.forall_mem_nil _⟩, List.forall_mem_nil _⟩
    · rename_i hset
      obtain ⟨hheld, hkeep⟩ := Option.filter_eq_some_iff.mp h
      obtain ⟨after, hlast, hafter⟩ := ih hheld
      have hkeep : l.releases p x = false := by simpa using hkeep
      refine ⟨after ++ [x], hlast.snoc (eq_false_of_ne_true hset), ?_⟩
      exact List.forall_mem_append.mpr ⟨hafter, List.forall_mem_singleton.mpr hkeep⟩

theorem held_none {xs : List α} (h : l.held xs = none) : l.AtRest xs := by
  induction xs using List.reverseRecOn with
  | nil => exact .inl (List.forall_mem_nil _)
  | append_singleton xs x ih =>
    rw [held_snoc] at h
    unfold step at h
    split at h
    · cases h
    · rename_i hset
      have hset := eq_false_of_ne_true hset
      cases hheld : l.held xs with
      | none =>
        rcases ih hheld with hnone | ⟨p, after, hlast, y, hy, hrel⟩
        · exact .inl (List.forall_mem_append.mpr ⟨hnone, List.forall_mem_singleton.mpr hset⟩)
        · exact .inr ⟨p, after ++ [x], hlast.snoc hset, y, List.mem_append_left _ hy, hrel⟩
      | some p =>
        rw [hheld] at h
        obtain ⟨after, hlast, -⟩ := held_some hheld
        refine .inr ⟨p, after ++ [x], hlast.snoc hset, x, ?_, ?_⟩
        · exact List.mem_append_right _ (List.mem_singleton_self x)
        · simpa using h

theorem LastSet.unique {xs after after' : List α} {p p' : α} (h : l.LastSet xs p after)
    (h' : l.LastSet xs p' after') : p = p' ∧ after = after' := by
  obtain ⟨before, rfl, hp, hafter⟩ := h
  obtain ⟨before', heq, hp', hafter'⟩ := h'
  rcases List.append_eq_append_iff.mp heq with ⟨mid, rfl, hmid⟩ | ⟨mid, rfl, hmid⟩
  · cases mid with
    | nil =>
      cases hmid
      exact ⟨rfl, rfl⟩
    | cons y mid =>
      cases hmid
      have := hafter p' (by simp)
      rw [hp'] at this
      cases this
  · cases mid with
    | nil =>
      cases hmid
      exact ⟨rfl, rfl⟩
    | cons y mid =>
      cases hmid
      have := hafter' p (by simp)
      rw [hp] at this
      cases this

theorem held_none_iff (xs : List α) : l.held xs = none ↔ l.AtRest xs := by
  constructor
  · exact held_none
  · intro h
    by_contra hheld
    obtain ⟨p, hp⟩ := Option.ne_none_iff_exists'.mp hheld
    obtain ⟨after, hlast, hafter⟩ := held_some hp
    rcases h with hnone | ⟨q, after', hlast', x, hx, hrel⟩
    · obtain ⟨before, rfl, hset, -⟩ := hlast
      have := hnone p (by simp)
      rw [hset] at this
      cases this
    · obtain ⟨rfl, rfl⟩ := hlast'.unique hlast
      rw [hafter x hx] at hrel
      cases hrel

end Latch

end LoopLab.Lib
